import TopdeskMcp.Core.McpServer

/-!
# The `call` command (`cli/call.rs`)

One call of an operation, by a process of its own. What `load_config` returns is given to
the command; `serde_json::from_str` and the catalogs of the API versions are parameters.
-/

namespace TopdeskMcp.Call

/-- The arguments, then the endpoint. -/
def input (fromStr : String → Option Json.Value) (catalog : Catalog)
    (operationId argsJson : String) : Except CallError (EndpointRecord × Json.Value) :=
  match fromStr argsJson with
  | none => .error .json
  | some args => (findEndpoint catalog operationId).map fun endpoint => (endpoint, args)

/-- What `call_operation` does, if the command comes to that. -/
def run (S : Schemas) (U : UrlCrate) (fromStr : String → Option Json.Value)
    (catalog : String → Catalog) (loaded : Except McpifyError Config)
    (operationId argsJson : String) (env : CallEnv) (stores : Credentials.Stores) :
    Except CallError Called :=
  match loaded with
  | .error err => .error (.mcpify err)
  | .ok config =>
      (input fromStr (catalog config.apiVersion) operationId argsJson).map fun (endpoint, args) =>
        callOperation S U config
          { endpoint, operationId, args, requestOverride := none, env }
          { manager := .new config.authMethod, stores }

end TopdeskMcp.Call
