import TopdeskMcp.Tools.CallTool

/-!
# The `call` tool of the server (`core/mcp_server.rs`)

Every session has its own server value, and all of them share one auth manager
behind a lock. A call takes its credentials from the message that carries it and
looks its endpoint up before it waits for the lock; it holds the lock until
`call_operation` returns.

`server` is the transition system of any number of such calls: they arrive, take
the lock, are served and are dropped in any order. A future that is dropped inside
`call_operation` is a `serve` whose sends never return. The catalog that endpoints
are looked up in is the parameter `Catalog`.
-/

namespace TopdeskMcp

/-- `get_endpoint` on the connection of the configured API version. -/
abbrev Catalog := String → Except CallError (Option EndpointRecord)

/-- The arguments of a call and the headers of the HTTP request it came in; on stdio
there are none. -/
structure CallRequest where
  operationId : String
  arguments : Json.Value
  parts : Option HeaderMap

/-- The credentials a call brings along. -/
def requestCredentials (config : Config) (request : CallRequest) : Option RequestCredentials :=
  request.parts.bind fun headers =>
    let location := headerLocationFor config.authMethod
    (extractRequestCredentials headers location.1 location.2).toOption

def findEndpoint (catalog : Catalog) (operationId : String) : Except CallError EndpointRecord :=
  match catalog operationId with
  | .error err => .error err
  | .ok none => .error (.mcpify (.notFound s!"unknown operationId '{operationId}'"))
  | .ok (some endpoint) => .ok endpoint

/-- A call that waits for the lock or holds it. -/
structure Pending where
  request : CallRequest
  credentials : Option RequestCredentials
  endpoint : EndpointRecord

inductive CallState where
  | absent
  | pending (call : Pending)
  | dropped
  | done (request : CallRequest) (executed : Executed)

/-- The shared auth manager, the call that holds its lock, and all calls. -/
structure Server where
  auth : AuthState
  holder : Option Nat
  calls : Nat → CallState

namespace Server

inductive Event where
  | arrive (call : Nat) (request : CallRequest)
  | lock (call : Nat)
  | serve (call : Nat) (env : CallEnv)
  | drop (call : Nat)

def initial (auth : AuthState) : Server := { auth, holder := none, calls := fun _ => .absent }

def setCall (s : Server) (call : Nat) (state : CallState) : Server :=
  { s with calls := Function.update s.calls call state }

/-- The future is dropped, and with it the lock it may hold. -/
def release (s : Server) (call : Nat) : Server :=
  if s.holder = some call then { s with holder := none } else s

variable (S : Schemas) (U : UrlCrate) (config : Config) (catalog : Catalog)

/-- The invocation a pending call makes. -/
def invocation (call : Pending) (env : CallEnv) : Invocation where
  endpoint := call.endpoint
  operationId := call.request.operationId
  args := call.request.arguments
  requestOverride := call.credentials
  env := env

def step (s : Server) : Event → Option Server
  | .arrive call request =>
      match s.calls call with
      | .absent =>
          match findEndpoint catalog request.operationId with
          | .error err => some (s.setCall call (.done request (ApiClient.stopped err false s.auth)))
          | .ok endpoint => some (s.setCall call
              (.pending { request, credentials := requestCredentials config request, endpoint }))
      | _ => none
  | .lock call =>
      match s.calls call, s.holder with
      | .pending _, none => some { s with holder := some call }
      | _, _ => none
  | .serve call env =>
      match s.calls call with
      | .pending pending =>
          if s.holder = some call then
            let executed := (callOperation S U config (invocation pending env) s.auth).executed
            some { auth := executed.auth, holder := none,
                   calls := Function.update s.calls call (.done pending.request executed) }
          else none
      | _ => none
  | .drop call =>
      match s.calls call with
      | .pending _ => some ((s.release call).setCall call .dropped)
      | _ => none

end Server

/-- Any number of calls on one shared auth manager, in any order. -/
def server (S : Schemas) (U : UrlCrate) (config : Config) (catalog : Catalog) :
    Trace.Lts Server Server.Event where
  init s := ∃ auth, s = .initial auth
  step := Server.step S U config catalog

namespace Server

variable {S : Schemas} {U : UrlCrate} {config : Config} {catalog : Catalog} {s s' : Server}

/-- All a step does to the auth manager and to the state of a call. -/
theorem step_cases {e : Event} (h : s.step S U config catalog e = some s') :
    (∃ call request err, e = .arrive call request ∧
      findEndpoint catalog request.operationId = .error err ∧
      s' = s.setCall call (.done request (ApiClient.stopped err false s.auth))) ∨
    (∃ call request endpoint, e = .arrive call request ∧
      findEndpoint catalog request.operationId = .ok endpoint ∧
      s' = s.setCall call
        (.pending { request, credentials := requestCredentials config request, endpoint })) ∨
    (∃ call, e = .lock call ∧ s.holder = none ∧ s' = { s with holder := some call }) ∨
    (∃ call env pending, e = .serve call env ∧ s.calls call = .pending pending ∧
      s.holder = some call ∧
      s' = let executed := (callOperation S U config (invocation pending env) s.auth).executed
        { auth := executed.auth, holder := none,
          calls := Function.update s.calls call (.done pending.request executed) }) ∨
    (∃ call, e = .drop call ∧ s' = (s.release call).setCall call .dropped) := by
  cases e with
  | arrive call request =>
      simp only [step] at h
      split at h
      · split at h
        · rename_i err herr
          exact .inl ⟨call, request, err, rfl, herr, (Option.some.inj h).symm⟩
        · rename_i endpoint hendpoint
          exact .inr (.inl ⟨call, request, endpoint, rfl, hendpoint, (Option.some.inj h).symm⟩)
      · simp at h
  | lock call =>
      simp only [step] at h
      split at h
      · rename_i hfree
        exact .inr (.inr (.inl ⟨call, rfl, hfree, (Option.some.inj h).symm⟩))
      · simp at h
  | serve call env =>
      simp only [step] at h
      split at h
      · rename_i pending hpending
        split at h
        · rename_i hholder
          exact .inr (.inr (.inr (.inl
            ⟨call, env, pending, rfl, hpending, hholder, (Option.some.inj h).symm⟩)))
        · simp at h
      · simp at h
  | drop call =>
      simp only [step] at h
      split at h
      · exact .inr (.inr (.inr (.inr ⟨call, rfl, (Option.some.inj h).symm⟩)))
      · simp at h

@[simp] theorem release_auth (s : Server) (call : Nat) : (s.release call).auth = s.auth := by
  unfold release; split <;> rfl

@[simp] theorem release_calls (s : Server) (call : Nat) :
    (s.release call).calls = s.calls := by
  unfold release; split <;> rfl

end Server

end TopdeskMcp
