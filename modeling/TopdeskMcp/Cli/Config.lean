import TopdeskMcp.Core.Sanitizer
import TopdeskMcp.Main

/-!
# The `config` command (`cli/config.rs`)

It prints the configuration as JSON, with what looks like a secret redacted. The text is that of
`serde_json::to_string_pretty`, a parameter, on a line of its own.
-/

namespace TopdeskMcp

/-- What `Config` is serialized to. -/
def Config.members (config : Config) : List (String × Json.Value) :=
  [("url", .string config.url), ("auth_method", .string config.authMethod.toStr),
   ("api_version", .string config.apiVersion), ("log_level", .string config.logLevel),
   ("rate_limit", .number config.rateLimit.toNat.repr),
   ("timeout_ms", .number config.timeoutMs.toNat.repr),
   ("cache_size", .number config.cacheSize.toNat.repr),
   ("retry_attempts", .number config.retryAttempts.toNat.repr),
   ("transport", .string config.transport.toStr), ("host", .string config.host),
   ("port", .number config.port.toNat.repr), ("cors_allow", .ofOption config.corsAllow)]

/-- What is printed. -/
def Config.print (toStringPretty : Json.Value → String) (config : Config) : String :=
  toStringPretty (Sanitizer.sanitize (.object config.members)) ++ "\n"

def ConfigCommand.run (toStringPretty : Json.Value → String) (serde : Serde) (machine : Machine)
    (env : StringMap) (files : TextFiles) : Except McpifyError String :=
  (loadConfig serde machine ∅ (Command.config.environment env) files).map
    (·.print toStringPretty)

end TopdeskMcp
