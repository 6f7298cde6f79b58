import TopdeskMcp.Http.Router
import TopdeskMcp.Theorems.Health
import TopdeskMcp.Theorems.Isolation

/-!
# What the HTTP server lets through

A call is made for a request that the gate let through, with the headers of that request
(`Gated`). The calls themselves are those of the server of `core/mcp_server.rs`, which the process
refines, so what holds of any interleaving of calls there (`Isolation.Untouched`) holds here: a
call sends the credential of its own request, and nothing if there is none.
-/

namespace TopdeskMcp.Theorems.Gate

open TopdeskMcp Http Trace

section

variable {app : App} {auth : AuthState} {checks : List (String × Bool)} {s s' : Gateway}
  {es : List Event} {incoming : Incoming} {response : Response}

/-! ## The gate -/

/-- The value of the auth method's header, when a request has one. -/
def credential (app : App) (headers : HeaderMap) : Option String :=
  (extractRequestCredentials headers app.state.headerLocation
    app.state.headerName).toOption.map RequestCredentials.value

theorem admits_iff : app.Admits incoming ↔
    isLocalhost incoming.addr = true ∨ (credential app incoming.headers).isSome := by
  unfold App.Admits authGate credential
  cases hlocal : isLocalhost incoming.addr with
  | true => simp
  | false =>
      cases (extractRequestCredentials incoming.headers app.state.headerLocation
        app.state.headerName).toOption <;> simp

theorem authGate_of_not_admits (h : ¬ app.Admits incoming) :
    authGate app.state incoming.addr incoming.headers = some unauthorized := by
  unfold App.Admits authGate at h
  unfold authGate
  dsimp only at h ⊢
  split at h
  · rename_i hrefuses
    exact if_pos hrefuses
  · exact absurd rfl h

/-- The routes of the router that the gate is a layer of. -/
def Guarded : Route → Bool
  | .healthz => false
  | .metrics => false
  | .mcp => true
  | .unrouted => true

/-- A call extracts what the gate looked for. -/
theorem ownHeader_eq {request : CallRequest} (h : request.parts = some incoming.headers) :
    Isolation.ownHeader app.config request = credential app incoming.headers := by
  rw [Isolation.ownHeader, requestCredentials, h]
  rfl

/-! ## The calls of a request -/

/-- A call that was made with a request, and whose future was not dropped. -/
def Carries : CallState → CallRequest → Prop
  | .pending call, request => call.request = request
  | .done request' _, request => request' = request
  | _, _ => False

/-- A call has the request it arrived with. -/
theorem carries_step {server server' : Server} {e : Server.Event} {call : Nat}
    {request : CallRequest}
    (h : Server.step app.schemas app.urlCrate app.config app.catalog server e = some server')
    (hcarries : Carries (server'.calls call) request) :
    Carries (server.calls call) request ∨ e = .arrive call request := by
  rcases Server.step_cases h with ⟨c, arrived, err, rfl, -, rfl⟩ |
    ⟨c, arrived, endpoint, rfl, -, rfl⟩ | ⟨c, -, -, rfl⟩ |
    ⟨c, env, pending, -, hpending, -, rfl⟩ | ⟨c, -, rfl⟩
  · by_cases hc : call = c
    · subst hc
      simp only [Server.setCall, Function.update_self, Carries] at hcarries
      exact .inr (by rw [hcarries])
    · exact .inl (by simpa [Server.setCall, hc] using hcarries)
  · by_cases hc : call = c
    · subst hc
      simp only [Server.setCall, Function.update_self, Carries] at hcarries
      exact .inr (by rw [hcarries])
    · exact .inl (by simpa [Server.setCall, hc] using hcarries)
  · exact .inl hcarries
  · by_cases hc : call = c
    · subst hc
      rw [hpending]
      exact .inl (by simpa [Carries] using hcarries)
    · exact .inl (by simpa [hc] using hcarries)
  · by_cases hc : call = c
    · subst hc
      simp [Server.setCall, Carries] at hcarries
    · exact .inl (by simpa [Server.setCall, hc] using hcarries)

/-- The invariant: `rmcp` has what the gate let through, what it did not is answered, and every
call has the headers of a request that `rmcp` has. -/
structure Gated (app : App) (s : Gateway) : Prop where
  inbox : ∀ id incoming, s.inbox id = some incoming → incoming.route = .mcp ∧
    app.Admits incoming ∧ (s.requests id = .handling incoming ∨
      ∃ response, s.requests id = .answered incoming response)
  handling : ∀ id incoming, s.requests id = .handling incoming → Guarded incoming.route = true →
    app.Admits incoming
  refused : ∀ id incoming response, s.requests id = .answered incoming response →
    Guarded incoming.route = true → ¬ app.Admits incoming →
    response = app.answer incoming unauthorized
  calls : ∀ call request, Carries (s.mcp.calls call) request →
    ∃ id incoming, s.inbox id = some incoming ∧ request.parts = some incoming.headers

theorem gated_initial : Gated app (.initial auth checks) where
  inbox _ _ h := by simp [Gateway.initial] at h
  handling _ _ h := by simp [Gateway.initial] at h
  refused _ _ _ h := by simp [Gateway.initial] at h
  calls _ _ h := by simp [Gateway.initial, Server.initial, Carries] at h

/-- A request that is not handed on leaves the rest as it is. -/
theorem Gated.setRequest (h : Gated app s) {id : Nat} {state : RequestState}
    (hinbox : ∀ incoming, s.inbox id = some incoming →
      state = .handling incoming ∨ ∃ response, state = .answered incoming response)
    (hhandling : ∀ incoming, state = .handling incoming → Guarded incoming.route = true →
      app.Admits incoming)
    (hrefused : ∀ incoming response, state = .answered incoming response →
      Guarded incoming.route = true → ¬ app.Admits incoming →
      response = app.answer incoming unauthorized) :
    Gated app (s.setRequest id state) := by
  refine ⟨?_, ?_, ?_, h.calls⟩
  · intro other incoming hother
    obtain ⟨hroute, hadmits, hrequest⟩ := h.inbox other incoming hother
    refine ⟨hroute, hadmits, ?_⟩
    by_cases heq : other = id
    · subst heq
      simpa [Gateway.setRequest] using hinbox incoming hother
    · simpa [Gateway.setRequest, heq] using hrequest
  · intro other incoming hother
    by_cases heq : other = id
    · subst heq
      exact hhandling incoming (by simpa [Gateway.setRequest] using hother)
    · exact h.handling other incoming (by simpa [Gateway.setRequest, heq] using hother)
  · intro other incoming response hother
    by_cases heq : other = id
    · subst heq
      exact hrefused incoming response (by simpa [Gateway.setRequest] using hother)
    · exact h.refused other incoming response (by simpa [Gateway.setRequest, heq] using hother)

/-- Of a request that is absent nothing is in the inbox. -/
theorem Gated.inbox_absent (h : Gated app s) {id : Nat} (habsent : s.requests id = .absent) :
    s.inbox id = none := by
  cases hinbox : s.inbox id with
  | none => rfl
  | some incoming =>
      obtain ⟨-, -, hrequest⟩ := h.inbox id incoming hinbox
      rw [habsent] at hrequest
      rcases hrequest with hrequest | ⟨response, hrequest⟩ <;> simp at hrequest

theorem Gated.count (h : Gated app s) : Gated app s.count :=
  ⟨h.inbox, h.handling, h.refused, h.calls⟩

/-- A request that the gate lets through is handed to `rmcp`. -/
theorem Gated.accept (h : Gated app s) {id : Nat} (hempty : s.inbox id = none)
    (hroute : incoming.route = .mcp) (hadmits : app.Admits incoming) :
    Gated app ((s.accept id incoming).setRequest id (.handling incoming)) := by
  refine ⟨?_, ?_, ?_, ?_⟩
  · intro other found hother
    by_cases heq : other = id
    · subst heq
      obtain rfl : incoming = found := by simpa [Gateway.accept, Gateway.setRequest] using hother
      exact ⟨hroute, hadmits, .inl (by simp [Gateway.setRequest])⟩
    · obtain ⟨hroute', hadmits', hrequest⟩ := h.inbox other found
        (by simpa [Gateway.accept, Gateway.setRequest, heq] using hother)
      refine ⟨hroute', hadmits', ?_⟩
      simpa [Gateway.accept, Gateway.setRequest, heq] using hrequest
  · intro other found hother hmcp
    by_cases heq : other = id
    · subst heq
      obtain rfl : incoming = found := by simpa [Gateway.setRequest] using hother
      exact hadmits
    · exact h.handling other found
        (by simpa [Gateway.accept, Gateway.setRequest, heq] using hother) hmcp
  · intro other found response hother
    by_cases heq : other = id
    · subst heq
      simp [Gateway.setRequest] at hother
    · exact h.refused other found response
        (by simpa [Gateway.accept, Gateway.setRequest, heq] using hother)
  · intro call request hcarries
    obtain ⟨other, found, hfound, hparts⟩ := h.calls call request hcarries
    have heq : other ≠ id := by
      rintro rfl
      rw [hempty] at hfound
      simp at hfound
    refine ⟨other, found, ?_, hparts⟩
    simpa [Gateway.accept, Gateway.setRequest, heq] using hfound

/-- A request that `rmcp` is not given is handled, if the gate has nothing against it. -/
theorem Gated.handle (h : Gated app s) {id : Nat} (hempty : s.inbox id = none)
    (hadmits : Guarded incoming.route = true → app.Admits incoming) :
    Gated app (s.setRequest id (.handling incoming)) := by
  refine h.setRequest (fun _ hsome => ?_) (fun found hfound hguarded => ?_) fun _ _ hstate => ?_
  · exact absurd (hempty.symm.trans hsome) (by simp)
  · rw [← RequestState.handling.inj hfound] at hguarded ⊢
    exact hadmits hguarded
  · simp at hstate

/-- ... or answered at once, with what the gate says if that is what it is answered with. -/
theorem Gated.finish (h : Gated app s) {id : Nat} (hempty : s.inbox id = none)
    (hrefused : Guarded incoming.route = true → ¬ app.Admits incoming →
      response = unauthorized) :
    Gated app (s.finish app id incoming response) := by
  refine h.setRequest (fun _ hsome => ?_) (fun _ hstate => by simp at hstate) ?_
  · exact absurd (hempty.symm.trans hsome) (by simp)
  · intro found response' hstate hguarded hnot
    obtain ⟨rfl, rfl⟩ := RequestState.answered.inj hstate
    rw [hrefused hguarded hnot]

theorem Gated.get (h : Gated app s) {id : Nat} (hempty : s.inbox id = none)
    {handler : Gateway → Gateway} (hhandler : Gated app (handler s))
    (hinbox : (handler s).inbox id = none) (hfree : Guarded incoming.route = false) :
    Gated app (s.get app id incoming handler) := by
  unfold Gateway.get
  split
  · exact hhandler.handle hinbox fun hguarded => by simp [hfree] at hguarded
  · exact h.finish hempty fun hguarded => by simp [hfree] at hguarded

theorem Gated.gated (h : Gated app s) {id : Nat} (hempty : s.inbox id = none)
    {next : Gateway → Gateway} (hnext : app.Admits incoming →
      Gated app ((next s.count).setRequest id (.handling incoming))) :
    Gated app (s.gated app id incoming next) := by
  unfold Gateway.gated
  split
  · rename_i response hgate
    refine h.count.finish hempty fun _ hnot => ?_
    rw [authGate_of_not_admits hnot] at hgate
    exact (Option.some.inj hgate).symm
  · rename_i hgate
    exact hnext hgate

theorem Gated.receive (h : Gated app s) {id : Nat} (habsent : s.requests id = .absent) :
    Gated app (s.receive app id incoming) := by
  have hempty := h.inbox_absent habsent
  unfold Gateway.receive
  split
  · rename_i hroute
    exact h.get hempty h hempty (by rw [hroute]; rfl)
  · rename_i hroute
    exact h.get hempty h.count hempty (by rw [hroute]; rfl)
  · rename_i hroute
    exact h.gated hempty (h.count.accept hempty hroute)
  · exact h.gated hempty fun hadmits => h.count.handle hempty fun _ => hadmits

theorem gated_step : (gateway app).Inductive (fun _ _ => True) (Gated app) := by
  intro s e s' h _ hstep
  rcases Gateway.step_cases hstep with ⟨id, incoming, -, habsent, rfl⟩ |
    ⟨id, call, operationId, arguments, incoming, mcp, -, hinbox, hmcp, rfl⟩ |
    ⟨event, mcp, -, hevent, hmcp, rfl⟩ | ⟨check, outcome, now, -, rfl⟩ |
    ⟨id, inner, incoming, -, hhandling, rfl⟩
  · exact h.receive habsent
  · refine ⟨h.inbox, h.handling, h.refused, ?_⟩
    intro other request hcarries
    rcases carries_step hmcp hcarries with hold | harrive
    · exact h.calls other request hold
    · obtain ⟨-, rfl⟩ := Server.Event.arrive.inj harrive
      exact ⟨id, incoming, hinbox, rfl⟩
  · refine ⟨h.inbox, h.handling, h.refused, ?_⟩
    intro other request hcarries
    exact h.calls other request
      ((carries_step hmcp hcarries).resolve_right (hevent other request))
  · unfold Gateway.report
    split
    · exact h
    · exact ⟨h.inbox, h.handling, h.refused, h.calls⟩
  · refine h.setRequest ?_ (fun _ hstate => by simp at hstate) ?_
    · intro found hfound
      obtain ⟨-, -, hrequest⟩ := h.inbox id found hfound
      rw [hhandling] at hrequest
      rcases hrequest with hrequest | ⟨response, hrequest⟩
      · rw [RequestState.handling.inj hrequest]
        exact .inr ⟨_, rfl⟩
      · simp at hrequest
    · intro found response hstate hguarded hnot
      obtain ⟨rfl, -⟩ := RequestState.answered.inj hstate
      exact absurd (h.handling id _ hhandling hguarded) hnot

/-! ## What a call does for its request -/

/-- A single step is a run. -/
theorem run_single {server server' : Server} {e : Server.Event}
    (h : Server.step app.schemas app.urlCrate app.config app.catalog server e = some server') :
    (TopdeskMcp.server app.schemas app.urlCrate app.config app.catalog).run server [e] =
      some server' :=
  Lts.run_cons_eq_some.mpr ⟨server', h, rfl⟩

/-- The calls of the process are those of the server. -/
theorem gateway_refines : (gateway app).Refines
    (server app.schemas app.urlCrate app.config app.catalog) Gateway.mcp := by
  intro s e s' hstep
  rcases Gateway.step_cases hstep with ⟨id, incoming, -, -, rfl⟩ |
    ⟨id, call, operationId, arguments, incoming, mcp, -, -, hmcp, rfl⟩ |
    ⟨event, mcp, -, -, hmcp, rfl⟩ | ⟨check, outcome, now, -, rfl⟩ | ⟨id, inner, incoming, -, -, rfl⟩
  · exact ⟨[], by rw [Gateway.mcp_receive]; rfl⟩
  · exact ⟨[_], run_single hmcp⟩
  · exact ⟨[_], run_single hmcp⟩
  · refine ⟨[], ?_⟩
    unfold Gateway.report
    split <;> rfl
  · exact ⟨[], rfl⟩

/-- What a call did that a request brought: it sent what its own message makes, or nothing. -/
structure Serves (app : App) (incoming : Incoming) (request : CallRequest)
    (executed : Executed) : Prop where
  sent : executed.dispatched =
    Isolation.ownRequest app.schemas app.urlCrate app.config app.catalog request
  headers : ∀ sent, executed.dispatched = some sent →
    Isolation.OwnHeaders app.config app.catalog request sent.headers
  /-- The value of its own header is the one the HTTP request came with. -/
  value : Isolation.ownHeader app.config request = credential app incoming.headers
  bare : credential app incoming.headers = none → isLocalhost incoming.addr = true ∧
    executed.dispatched = none ∧ executed.sends = 0 ∧ ∃ err, executed.result = some (.error err)

theorem serves_of_sends {request : CallRequest} {executed : Executed}
    (hadmits : app.Admits incoming) (hparts : request.parts = some incoming.headers)
    (hsends : Isolation.Sends
      (Isolation.ownRequest app.schemas app.urlCrate app.config app.catalog request) executed) :
    Serves app incoming request executed where
  sent := hsends.dispatched
  headers sent hsent := Isolation.ownRequest_headers (hsends.dispatched.symm.trans hsent)
  value := ownHeader_eq hparts
  bare hnone := by
    have hown := Isolation.ownRequest_of_no_header app.schemas app.urlCrate app.catalog
      ((ownHeader_eq hparts).trans hnone)
    refine ⟨(admits_iff.mp hadmits).resolve_right (by simp [hnone]), ?_, ?_⟩
    · rw [hsends.dispatched, hown]
    · exact hsends.stopped hown

/-- **The gate.** In every run of the HTTP process the operator's credentials are neither used nor
changed; a request behind the gate from another machine without a credential of its own is answered
with 401 and never reaches `rmcp`; and every call that ended was brought by a request to `/mcp` that
the gate let through, and sent what its own message makes: the auth method's header has the value
that came with the request, all others are the endpoint's and the arguments'. If no value came the
request is from this machine, and the call sent nothing and failed. -/
theorem gate_safety (app : App) (auth : AuthState) (checks : List (String × Bool))
    (es : List Event) (s : Gateway) (hhttp : app.config.transport = .http)
    (hrun : (gateway app).run (.initial auth checks) es = some s) :
    s.mcp.auth = auth ∧
      (∀ id incoming response, s.requests id = .answered incoming response →
        Guarded incoming.route = true → isLocalhost incoming.addr = false →
        credential app incoming.headers = none →
        response = app.answer incoming unauthorized ∧ s.inbox id = none) ∧
      (∀ call request executed, s.mcp.calls call = .done request executed →
        ∃ id incoming, s.inbox id = some incoming ∧ incoming.route = .mcp ∧
          app.Admits incoming ∧ request.parts = some incoming.headers ∧
          Serves app incoming request executed) := by
  have hgated : Gated app s := gated_step.reach gated_initial hrun
  obtain ⟨fs, hfs⟩ := gateway_refines.run hrun
  have huntouched := Isolation.untouched_run hhttp hfs
  refine ⟨huntouched.auth_eq, ?_, ?_⟩
  · intro id incoming response hanswered hguarded hremote hnone
    have hnot : ¬ app.Admits incoming := by
      rw [admits_iff]
      simp [hremote, hnone]
    refine ⟨hgated.refused id incoming response hanswered hguarded hnot, ?_⟩
    cases hinbox : s.inbox id with
    | none => rfl
    | some found =>
        obtain ⟨-, hadmits, hrequest⟩ := hgated.inbox id found hinbox
        rw [hanswered] at hrequest
        rcases hrequest with hrequest | ⟨response', hrequest⟩
        · simp at hrequest
        · rw [← (RequestState.answered.inj hrequest).1] at hadmits
          exact absurd hadmits hnot
  · intro call request executed hdone
    obtain ⟨id, incoming, hinbox, hparts⟩ := hgated.calls call request (by rw [hdone]; rfl)
    obtain ⟨hroute, hadmits, -⟩ := hgated.inbox id incoming hinbox
    exact ⟨id, incoming, hinbox, hroute, hadmits, hparts,
      serves_of_sends hadmits hparts (huntouched.done call request executed hdone)⟩

end

/-! ## Two machines -/

namespace TwoMachines

open Paths.Incident Isolation.TwoClients

def app : App where
  schemas := schemas
  urlCrate := .whatwg host
  config := client.config
  catalog := catalog
  headerValue := fun text => some (Utf8.encode text)

def remote : Net.IpAddr := .v4 ⟨203, 0, 113, 10⟩

/-- A request from another machine, with a header or without. -/
def request (header : Option String) : Incoming where
  method := "POST"
  path := "/mcp"
  addr := remote
  headers := header.toList.map fun value => ("authorization", Utf8.encode value)

def events : List Event :=
  [.receive 0 (request (some "Basic YTpi")), .receive 1 (request none),
    .deliver 0 7 "getIncident" (args "42"), .mcp (.lock 7), .mcp (.serve 7 env)]

/-- The one is served with its own header, the other is refused. -/
theorem gate_safety_two : ∃ s call executed sent,
    (gateway app).run (.initial seeded Gateway.harnessChecks) events = some s ∧
      s.mcp.auth = seeded ∧
      s.requests 1 = .answered (request none) (app.answer (request none) unauthorized) ∧
      s.inbox 1 = none ∧ s.mcp.calls 7 = .done call executed ∧ executed.dispatched = some sent ∧
      sent.headers.lookup "Authorization" = some "Basic YTpi" := by
  have hrun : (gateway app).run (.initial seeded Gateway.harnessChecks) events = some _ := rfl
  obtain ⟨hauth, hrefused, hserved⟩ :=
    gate_safety app seeded Gateway.harnessChecks events _ rfl hrun
  obtain ⟨hresponse, hinbox⟩ := hrefused 1 (request none) _ rfl rfl rfl rfl
  obtain ⟨id, incoming, hid, -, -, hparts, hserves⟩ := hserved 7 _ _ rfl
  obtain ⟨value, hvalue, hlookup⟩ := (hserves.headers _ rfl).own
  have hcredential : credential app incoming.headers = some "Basic YTpi" := by
    rw [← Option.some.inj hparts]
    rfl
  rw [hserves.value, hcredential] at hvalue
  obtain rfl : "Basic YTpi" = value := Option.some.inj hvalue
  exact ⟨_, _, _, _, rfl, hauth, rfl, hinbox, rfl, rfl, hlookup⟩

end TwoMachines

end TopdeskMcp.Theorems.Gate
