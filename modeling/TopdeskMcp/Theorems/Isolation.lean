import TopdeskMcp.Core.McpServer
import TopdeskMcp.Theorems.Paths

/-!
# Credential isolation over HTTP

Over the HTTP transport the request a call hands to `dispatch` is a function of
its own message (`ownRequest`): of its arguments, and of the header its caller
sent. The argument is an invariant of the server (`Untouched`): the shared auth
manager and the store behind it stay what they were, a waiting call holds the
credentials of its own message, and a finished one sent what they make. Two runs
that agree on a call's message therefore agree on what it sends.
-/

namespace TopdeskMcp.Theorems.Isolation

open TopdeskMcp Server Trace ApiClient Function

section

variable {S : Schemas} {U : UrlCrate} {config : Config} {catalog : Catalog} {auth : AuthState}
  {s s' : Server}

/-! ## One call -/

/-- What a call over HTTP hands to `dispatch`; nothing when its arguments are invalid,
the rate limit is zero, or it has no address or no credentials. -/
def httpRequest (S : Schemas) (U : UrlCrate) (config : Config) (endpoint : EndpointRecord)
    (operationId : String) (args : Json.Value) (credentials : Option RequestCredentials) :
    Option Request :=
  if S.input config.apiVersion operationId args = none ∧ config.rateLimit.toNat ≠ 0 then
    (callUrl U config endpoint (argsMap args)).bind fun url => credentials.map fun c =>
      { method := endpoint.method, url, body := (argsMap args).lookup "body",
        headers := (callHeaders endpoint (argsMap args)).insert c.headerName c.value }
  else none

/-- What a call does over HTTP, as far as its request decides it. -/
structure Sends (request : Option Request) (executed : Executed) : Prop where
  dispatched : executed.dispatched = request
  decorated : executed.decorated = request.map Request.headers
  stopped : request = none → executed.sends = 0 ∧ ∃ err, executed.result = some (.error err)

theorem sends_stopped (err : CallError) (granted : Bool) (auth : AuthState) :
    Sends none (stopped err granted auth) :=
  ⟨rfl, rfl, fun _ => ⟨rfl, err, rfl⟩⟩

/-- A fresh limiter grants its first call, unless its limit is zero. -/
theorem acquire_new (config : Config) (now : Nat) :
    ((ApiClient.new config).rateLimiter.acquire now).1 =
      if config.rateLimit.toNat = 0 then .error .rateLimitExceeded else .ok () := by
  have hempty : (ApiClient.new config).rateLimiter.Tracks [] now := fun _ _ => rfl
  rw [RateLimiter.acquire_eq hempty (Nat.le_refl _)]
  simp [ApiClient.new, RateLimiter.new, recent]

theorem prepare_http (hhttp : config.transport = .http) (endpoint : EndpointRecord) (args : Args)
    (credentials : Option RequestCredentials) (env : AuthEnv) (auth : AuthState) :
    prepare U config endpoint args credentials env auth =
      (match callUrl U config endpoint args, credentials with
        | none, _ => .error .url
        | some _, none => .error (.message AuthManager.noRequestCredentials)
        | some url, some c => .ok
            { method := endpoint.method, url, body := args.lookup "body",
              headers := (callHeaders endpoint args).insert c.headerName c.value }, auth) := by
  unfold prepare
  cases callUrl U config endpoint args with
  | none => rfl
  | some url =>
      rw [hhttp]
      cases credentials with
      | none => rfl
      | some c =>
          simp only [AuthManager.applyAuthHeaders, AuthManager.decorate_intoCredentialsMap]
          rfl

/-- A fresh client that grants a call sends the request that could be built. -/
theorem sends_execute {i : Invocation} {prepared : Except CallError Request}
    (hacquire : ((ApiClient.new config).rateLimiter.acquire i.env.start).1 = .ok ())
    (hprepare : prepare U config i.endpoint (argsMap i.args) i.requestOverride i.env.auth auth =
      (prepared, auth)) :
    let executed := ((ApiClient.new config).execute U i.endpoint i.args i.requestOverride i.env
      auth).1
    executed.auth = auth ∧ Sends prepared.toOption executed := by
  have hnew : (ApiClient.new config).config = config := rfl
  have hfirst : (prepare U (ApiClient.new config).config i.endpoint (argsMap i.args)
      i.requestOverride i.env.auth auth).1 = prepared := by rw [hnew, hprepare]
  cases prepared with
  | error err =>
      rw [execute_of_unprepared hacquire hfirst, hnew, hprepare]
      exact ⟨rfl, sends_stopped ..⟩
  | ok request =>
      have henter : CircuitBreaker.default.enter i.env.start = some .default := rfl
      rw [execute_of_prepared hacquire hfirst, hnew, hprepare, send_of_enter henter]
      exact ⟨rfl, rfl, rfl, fun h => by simp [Except.toOption] at h⟩

/-- Over HTTP a call sends what its own arguments and credentials make, and leaves the
auth manager and the store alone. -/
theorem callOperation_http (hhttp : config.transport = .http) (i : Invocation)
    (auth : AuthState) :
    (callOperation S U config i auth).executed.auth = auth ∧
      Sends (httpRequest S U config i.endpoint i.operationId i.args i.requestOverride)
        (callOperation S U config i auth).executed := by
  unfold httpRequest callOperation validateInput
  cases hinput : S.input config.apiVersion i.operationId i.args with
  | some errors => exact ⟨rfl, sends_stopped ..⟩
  | none =>
      simp only [true_and]
      have hacquire := acquire_new config i.env.start
      by_cases hzero : config.rateLimit.toNat = 0
      · rw [if_pos hzero] at hacquire
        rw [execute_of_rejected hacquire, if_neg (by simp [hzero])]
        exact ⟨rfl, sends_stopped ..⟩
      · rw [if_neg hzero] at hacquire
        rw [if_pos hzero]
        have hexecute := sends_execute hacquire (prepare_http (U := U) hhttp i.endpoint
          (argsMap i.args) i.requestOverride i.env.auth auth)
        cases hurl : callUrl U config i.endpoint (argsMap i.args) with
        | none => simpa [hurl, Except.toOption] using hexecute
        | some url =>
            cases hcredentials : i.requestOverride <;>
              simpa [hurl, hcredentials, Except.toOption] using hexecute

/-! ## Every interleaving -/

/-- The header an incoming message has for the auth method. -/
def ownHeader (config : Config) (request : CallRequest) : Option String :=
  (requestCredentials config request).map RequestCredentials.value

/-- What a call's own message makes it send. -/
def ownRequest (S : Schemas) (U : UrlCrate) (config : Config) (catalog : Catalog)
    (request : CallRequest) : Option Request :=
  (findEndpoint catalog request.operationId).toOption.bind fun endpoint =>
    httpRequest S U config endpoint request.operationId request.arguments
      (requestCredentials config request)

/-- The invariant: the auth manager and the store are what they were, and every call
has its own message's endpoint and credentials, or has sent what they make. -/
structure Untouched (S : Schemas) (U : UrlCrate) (config : Config) (catalog : Catalog)
    (auth : AuthState) (s : Server) : Prop where
  auth_eq : s.auth = auth
  pending : ∀ c call, s.calls c = .pending call →
    call.credentials = requestCredentials config call.request ∧
      findEndpoint catalog call.request.operationId = .ok call.endpoint
  done : ∀ c request executed, s.calls c = .done request executed →
    Sends (ownRequest S U config catalog request) executed

theorem untouched_initial (auth : AuthState) :
    Untouched S U config catalog auth (.initial auth) :=
  ⟨rfl, by simp [Server.initial], by simp [Server.initial]⟩

/-- Setting the state of one call keeps what is known of the others. -/
theorem Untouched.update (h : Untouched S U config catalog auth s) {c : Nat} {state : CallState}
    {holder : Option Nat}
    (hpending : ∀ call, state = .pending call →
      call.credentials = requestCredentials config call.request ∧
        findEndpoint catalog call.request.operationId = .ok call.endpoint)
    (hdone : ∀ request executed, state = .done request executed →
      Sends (ownRequest S U config catalog request) executed) :
    Untouched S U config catalog auth
      { auth := s.auth, holder, calls := Function.update s.calls c state } := by
  refine ⟨h.auth_eq, ?_, ?_⟩
  · intro d call hd
    by_cases hdc : d = c
    · subst hdc
      exact hpending call (by simpa using hd)
    · exact h.pending d call (by simpa [hdc] using hd)
  · intro d request executed hd
    by_cases hdc : d = c
    · subst hdc
      exact hdone request executed (by simpa using hd)
    · exact h.done d request executed (by simpa [hdc] using hd)

theorem untouched_step (hhttp : config.transport = .http) :
    (server S U config catalog).Inductive (fun _ _ => True)
      (Untouched S U config catalog auth) := by
  intro s e s' h _ hstep
  rcases step_cases hstep with ⟨c, request, err, -, herr, rfl⟩ |
    ⟨c, request, endpoint, -, hendpoint, rfl⟩ | ⟨c, -, -, rfl⟩ |
    ⟨c, env, call, -, hcall, -, rfl⟩ | ⟨c, -, rfl⟩
  · -- an operation that is not in the catalog
    refine h.update (fun _ hp => by simp at hp) fun request' executed hd => ?_
    obtain ⟨rfl, rfl⟩ := CallState.done.inj hd
    rw [ownRequest, herr]
    exact sends_stopped ..
  · -- a call arrives, with the credentials of its message
    refine h.update (fun call hp => ?_) fun _ _ hd => by simp at hd
    rw [← CallState.pending.inj hp]
    exact ⟨rfl, hendpoint⟩
  · -- a call takes the lock
    exact ⟨h.auth_eq, h.pending, h.done⟩
  · -- the call that holds the lock is served
    obtain ⟨hauth, hsends⟩ :=
      callOperation_http (S := S) (U := U) hhttp (invocation call env) s.auth
    obtain ⟨hcredentials, hendpoint⟩ := h.pending c call hcall
    dsimp only
    rw [hauth]
    refine h.update (fun _ hp => by simp at hp) fun request' executed hd => ?_
    obtain ⟨rfl, rfl⟩ := CallState.done.inj hd
    rw [ownRequest, hendpoint]
    simpa [invocation, hcredentials, Except.toOption] using hsends
  · -- a call is dropped
    have hrelease : Untouched S U config catalog auth (s.release c) :=
      ⟨by simpa using h.auth_eq, by simpa using h.pending, by simpa using h.done⟩
    exact hrelease.update (fun _ hp => by simp at hp) fun _ _ hd => by simp at hd

theorem untouched_run (hhttp : config.transport = .http) {events : List Event}
    (hrun : (server S U config catalog).run (.initial auth) events = some s) :
    Untouched S U config catalog auth s :=
  (untouched_step hhttp).reach (untouched_initial auth) hrun

/-! ## What the headers of a call are -/

theorem requestCredentials_name {request : CallRequest} {c : RequestCredentials}
    (h : requestCredentials config request = some c) :
    c.headerName = (headerLocationFor config.authMethod).2 := by
  obtain ⟨headers, -, hextract⟩ := Option.bind_eq_some_iff.mp h
  cases hresult : extractRequestCredentials headers (headerLocationFor config.authMethod).1
      (headerLocationFor config.authMethod).2 with
  | error err => simp [hresult, Except.toOption] at hextract
  | ok found =>
      simp only [hresult, Except.toOption, Option.some.injEq] at hextract
      exact hextract ▸ extractRequestCredentials_name hresult

/-- The headers of a call: the auth method's header has the value that came with the
message, and every other header is as it was. -/
structure OwnHeaders (config : Config) (catalog : Catalog) (request : CallRequest)
    (headers : StringMap) : Prop where
  own : ∃ value, ownHeader config request = some value ∧
    headers.lookup (headerLocationFor config.authMethod).2 = some value
  others : ∃ endpoint, findEndpoint catalog request.operationId = .ok endpoint ∧
    ∀ name, name ≠ (headerLocationFor config.authMethod).2 →
      headers.lookup name = (callHeaders endpoint (argsMap request.arguments)).lookup name

theorem ownRequest_headers {request : CallRequest} {sent : Request}
    (h : ownRequest S U config catalog request = some sent) :
    OwnHeaders config catalog request sent.headers := by
  obtain ⟨endpoint, hendpoint, hsent⟩ := Option.bind_eq_some_iff.mp h
  have hfound : findEndpoint catalog request.operationId = .ok endpoint := by
    cases hfind : findEndpoint catalog request.operationId with
    | error err => simp [hfind, Except.toOption] at hendpoint
    | ok found => simpa [hfind, Except.toOption] using hendpoint
  unfold httpRequest at hsent
  split at hsent
  · obtain ⟨url, -, hsent⟩ := Option.bind_eq_some_iff.mp hsent
    obtain ⟨c, hc, rfl⟩ := Option.map_eq_some_iff.mp hsent
    have hname := requestCredentials_name hc
    refine ⟨⟨c.value, by rw [ownHeader, hc]; rfl, ?_⟩, endpoint, hfound, fun name hne => ?_⟩
    · rw [← hname]
      exact AList.lookup_insert _
    · exact AList.lookup_insert_ne (hname ▸ hne)
  · simp at hsent

theorem ownRequest_of_no_header (S : Schemas) (U : UrlCrate) (catalog : Catalog)
    {request : CallRequest} (h : ownHeader config request = none) :
    ownRequest S U config catalog request = none := by
  have hnone : requestCredentials config request = none := Option.map_eq_none_iff.mp h
  unfold ownRequest httpRequest
  rw [hnone]
  refine Option.bind_eq_none_iff.mpr fun endpoint _ => ?_
  split
  · exact Option.bind_eq_none_iff.mpr fun _ _ => rfl
  · rfl

/-- Over HTTP, in every run of any number of calls: the auth manager and the store are
what they were; the headers of a call are its own; a call without an extractable header
fails and sends nothing; and any other run, with other secrets and other calls around
it, gives a call with the same message the same headers and the same request. -/
theorem credential_isolation (hhttp : config.transport = .http) {events : List Event}
    (hrun : (server S U config catalog).run (.initial auth) events = some s) :
    s.auth = auth ∧
      (∀ c request executed, s.calls c = .done request executed →
        (∀ headers, executed.decorated = some headers →
          OwnHeaders config catalog request headers) ∧
        (∀ sent, executed.dispatched = some sent → executed.decorated = some sent.headers) ∧
        (ownHeader config request = none → executed.dispatched = none ∧ executed.sends = 0 ∧
          ∃ err, executed.result = some (.error err))) ∧
      (∀ auth' events' s', (server S U config catalog).run (.initial auth') events' = some s' →
        ∀ c request executed executed', s.calls c = .done request executed →
          s'.calls c = .done request executed' →
          executed.decorated = executed'.decorated ∧
            executed.dispatched = executed'.dispatched) := by
  have h := untouched_run hhttp hrun
  refine ⟨h.auth_eq, ?_, ?_⟩
  · intro c request executed hdone
    have hsends := h.done c request executed hdone
    refine ⟨?_, ?_, ?_⟩
    · intro headers hheaders
      rw [hsends.decorated] at hheaders
      obtain ⟨sent, hsent, rfl⟩ := Option.map_eq_some_iff.mp hheaders
      exact ownRequest_headers hsent
    · intro sent hsent
      rw [hsends.decorated, ← hsends.dispatched, hsent]
      rfl
    · intro hnone
      have hown := ownRequest_of_no_header S U catalog hnone
      exact ⟨hsends.dispatched.trans hown, hsends.stopped hown⟩
  · -- both runs give the call what its message makes it send
    intro auth' events' s' hrun' c request executed executed' hdone hdone'
    have hsends := h.done c request executed hdone
    have hsends' := (untouched_run hhttp hrun').done c request executed' hdone'
    exact ⟨hsends.decorated.trans hsends'.decorated.symm,
      hsends.dispatched.trans hsends'.dispatched.symm⟩

end

/-! ## Two clients on one manager -/

namespace TwoClients

open Paths.Incident

def schemas : Schemas where
  input _ _ _ := none
  output _ _ _ := none

def catalog : Catalog := fun operationId =>
  .ok (if operationId = "getIncident" then some endpoint else none)

/-- A call for an incident with a caller's own header. -/
def request (header : String) : CallRequest where
  operationId := "getIncident"
  arguments := args "42"
  parts := some [("host", Utf8.encode "localhost"), ("authorization", Utf8.encode header)]

/-- A manager that has the operator's own credentials cached. -/
def seeded : AuthState where
  manager := auth.manager.setCredentials
    ((∅ : StringMap).insert "authorization_header" "Basic b3BlcmF0b3I6")
  stores := auth.stores

def events : List Event :=
  [.arrive 0 (request "Basic YTpi"), .arrive 1 (request "Basic Yzpk"), .lock 1, .serve 1 env,
    .lock 0, .serve 0 env]

theorem credential_isolation_two : ∃ s executed headers,
    (server schemas (.whatwg host) client.config catalog).run (.initial seeded) events = some s ∧
      s.auth = seeded ∧ s.calls 1 = .done (request "Basic Yzpk") executed ∧
      executed.decorated = some headers ∧
      headers.lookup "Authorization" = some "Basic Yzpk" := by
  have hrun : (server schemas (.whatwg host) client.config catalog).run (.initial seeded) events =
      some _ := rfl
  obtain ⟨hauth, hdone, -⟩ := credential_isolation rfl hrun
  obtain ⟨hheaders, -, -⟩ := hdone 1 _ _ rfl
  obtain ⟨value, hvalue, hlookup⟩ := (hheaders _ rfl).own
  obtain rfl : "Basic Yzpk" = value := Option.some.inj hvalue
  exact ⟨_, _, _, rfl, hauth, rfl, rfl, hlookup⟩

end TwoClients

end TopdeskMcp.Theorems.Isolation
