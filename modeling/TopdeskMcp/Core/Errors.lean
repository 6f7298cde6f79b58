import TopdeskMcp.Core.CredentialStorage

/-!
# Errors (`core/errors.rs`, `auth/errors.rs`)

What a call can fail with. Errors the repository words itself carry their text;
those of other crates are told apart by where they come from.
-/

namespace TopdeskMcp

/-- The variants of `McpifyError` that loading the configuration and calls produce; `details`
is the array of violations. -/
inductive McpifyError where
  | configuration (text : String)
  | validation (message : String) (details : List String)
  | notFound (text : String)
  | rateLimitExceeded
  deriving DecidableEq, Repr

/-- The suffix that renders the violated constraints. -/
def formatValidationDetails (details : List String) : String :=
  if details = [] then "" else ": " ++ String.intercalate "; " details

def McpifyError.text : McpifyError → String
  | .configuration text => text
  | .validation message details => message ++ formatValidationDetails details
  | .notFound text => text
  | .rateLimitExceeded => "rate limit exceeded"

inductive AuthError where
  | missingCredentials (fields : String)
  | noActiveCredentials (authMethod : String)
  deriving DecidableEq, Repr

def AuthError.text : AuthError → String
  | .missingCredentials fields => "missing required credential field(s): " ++ fields
  | .noActiveCredentials authMethod =>
      "no valid credentials for auth method '" ++ authMethod ++ "'; run `topdesk-mcp setup`"

/-- How a call fails. `message` is an error raised with `bail!`; `panicked` is no
error value but an unwinding call. -/
inductive CallError where
  | mcpify (err : McpifyError)
  | auth (err : AuthError)
  | message (text : String)
  | storage (err : Credentials.Error)
  | json
  | url
  | method
  | transport (text : String)
  | status (code : Nat)
  | panicked
  deriving DecidableEq, Repr

end TopdeskMcp
