import TopdeskMcp.Services.ApiClient

/-!
# The `test-connection` command (`cli/test_connection.rs`)

One GET of the base address, with the headers that the auth manager returns for stdio.
What `load_config` returns is given to the command; what the send meets is a
`SendOutcome`, as for a call.
-/

namespace TopdeskMcp

/-- What a run does: the headers that the auth manager returned, the request that is sent, how
it ends, and the store it leaves behind. -/
structure Tested where
  decorated : Option StringMap
  request : Option Request
  result : Except CallError Unit
  stores : Credentials.Stores

namespace TestConnection

/-- A response as `probe` reads it; `statusText` is how a status is displayed. -/
def probeResult (statusText : Nat → String) : SendOutcome → Except CallError Unit
  | .error text => .error (.transport text)
  | .response status _ =>
      if 200 ≤ status ∧ status < 300 then .ok ()
      else .error (.message ("connection failed: HTTP " ++ statusText status))

def probe (U : UrlCrate) (statusText : Nat → String) (config : Config) (headers : StringMap)
    (outcome : SendOutcome) : Option Request × Except CallError Unit :=
  match buildApiUrl U config.url.toList ['/'] [] with
  | none => (none, .error .url)
  | some url =>
      (some { method := "GET", url, body := none, headers }, probeResult statusText outcome)

def run (U : UrlCrate) (statusText : Nat → String) (loaded : Except McpifyError Config)
    (env : AuthEnv) (stores : Credentials.Stores) (outcome : SendOutcome) : Tested :=
  match loaded with
  | .error err => { decorated := none, request := none, result := .error (.mcpify err), stores }
  | .ok config =>
      -- the transport is a constant here, whatever the configuration says
      let applied := AuthManager.applyAuthHeaders env { manager := .new config.authMethod, stores }
        ∅ .stdio none
      match applied.1 with
      | .error err =>
          { decorated := none, request := none, result := .error err, stores := applied.2.stores }
      | .ok headers =>
          let probed := probe U statusText config headers outcome
          { decorated := some headers, request := probed.1, result := probed.2,
            stores := applied.2.stores }

end TestConnection

end TopdeskMcp
