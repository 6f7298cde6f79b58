import TopdeskMcp.Lib.Trace
import TopdeskMcp.Services.ApiClient

/-!
# Calling an operation (`tools/call_tool.rs`, `validation/validator.rs`)

`callOperation` validates the arguments, makes an API client, executes the call
and logs a response that does not match its schema. Schemas and what violates
them are the parameter `Schemas`.

`perCall` is a process that makes one call after another: `call_operation`
borrows the auth manager mutably until it returns, so calls on one manager do not
overlap.
-/

namespace TopdeskMcp

/-- The violations of an operation's schemas, by API version and operation; `none`
when the value is valid or there is no schema. -/
structure Schemas where
  input : String → String → Json.Value → Option (List String)
  output : String → String → Json.Value → Option (List String)

def validateInput (S : Schemas) (apiVersion operationId : String) (data : Json.Value) :
    Except McpifyError Unit :=
  match S.input apiVersion operationId data with
  | none => .ok ()
  | some errors => .error (.validation s!"invalid input for '{operationId}'" errors)

def validateOutput (S : Schemas) (apiVersion operationId : String) (data : Json.Value) :
    Except McpifyError Unit :=
  match S.output apiVersion operationId data with
  | none => .ok ()
  | some errors => .error (.validation s!"unexpected response shape for '{operationId}'" errors)

/-- A call and the circumstances it is made in. -/
structure Invocation where
  endpoint : EndpointRecord
  operationId : String
  args : Json.Value
  requestOverride : Option RequestCredentials
  env : CallEnv

/-- What a call does, and the mismatch it logs. -/
structure Called where
  executed : Executed
  warning : Option McpifyError

def callOperation (S : Schemas) (U : UrlCrate) (config : Config) (i : Invocation)
    (auth : AuthState) : Called :=
  match validateInput S config.apiVersion i.operationId i.args with
  | .error err => { executed := ApiClient.stopped (.mcpify err) false auth, warning := none }
  | .ok () =>
      -- a client of its own: the limiter is empty and the breaker closed
      let executed :=
        ((ApiClient.new config).execute U i.endpoint i.args i.requestOverride i.env auth).1
      { executed
        warning := match executed.result with
          | some (.ok response) =>
              match validateOutput S config.apiVersion i.operationId response with
              | .error err => some err
              | .ok () => none
          | _ => none }

section

variable {S : Schemas} {U : UrlCrate} {config : Config} {i : Invocation} {auth : AuthState}

theorem callOperation_of_invalid {err : McpifyError}
    (h : validateInput S config.apiVersion i.operationId i.args = .error err) :
    callOperation S U config i auth =
      { executed := ApiClient.stopped (.mcpify err) false auth, warning := none } := by
  simp only [callOperation, h]

theorem callOperation_of_valid (h : validateInput S config.apiVersion i.operationId i.args = .ok ()) :
    (callOperation S U config i auth).executed =
      ((ApiClient.new config).execute U i.endpoint i.args i.requestOverride i.env auth).1 := by
  simp only [callOperation, h]

end

/-- A process between two calls: its auth manager, the time the last call ended, and
all calls so far. -/
structure Process where
  auth : AuthState
  clock : Nat
  log : List (Invocation × Executed)

namespace Process

def initial (auth : AuthState) (clock : Nat) : Process := { auth, clock, log := [] }

/-- Calls follow one another, and each ends after it starts. -/
def Follows (p : Process) (i : Invocation) : Prop :=
  p.clock ≤ i.env.start ∧ i.env.start ≤ i.env.finish

instance (p : Process) (i : Invocation) : Decidable (p.Follows i) := by
  unfold Follows; infer_instance

def record (p : Process) (i : Invocation) (executed : Executed) : Process where
  auth := executed.auth
  clock := i.env.finish
  log := p.log ++ [(i, executed)]

end Process

/-- A process whose calls are made by `call_operation`. -/
def perCall (S : Schemas) (U : UrlCrate) (config : Config) : Trace.Lts Process Invocation where
  init p := ∃ auth clock, p = .initial auth clock
  step p i :=
    if p.Follows i then some (p.record i (callOperation S U config i p.auth).executed) else none

end TopdeskMcp
