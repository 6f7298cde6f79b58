import TopdeskMcp.Theorems.Resolution
import TopdeskMcp.Theorems.Stages

/-!
# The identity of a process on stdio

On stdio every call asks the one auth manager of the process for credentials. A manager starts
without any; the first credentials that it caches are settled (`Resolution.Settled`), so they are
returned unchanged from then on, whatever the environment and the stores say by then. A process
therefore acts for one identity in all its calls, however they interleave:

* `credentials_step` is what one call can do to the manager, `Identified` the invariant of a run;
* `one_identity`: what is sent in a run is sent with the same credentials, and once there are
  some, nothing that the calls share changes any more;
* `setup_identity`: after the setup wizard, these are the answers it was given.
-/

namespace TopdeskMcp.Theorems.Identity

open TopdeskMcp Server Trace ApiClient AuthManager Resolution

open TopdeskMcp.Theorems.Authentication (fresh built AtMostPair)

section

variable {S : Schemas} {U : UrlCrate} {config : Config} {catalog : Catalog} {E : AuthEnv}
  {auth auth' : AuthState} {s s' : Server} {c : StringMap}

/-! ## One call -/

/-- The credentials that calls are made with, if there are some. -/
def identity (auth : AuthState) : Option StringMap := auth.manager.cachedCredentials

/-- Credentials are found and kept, and may have been saved. -/
structure Adopts (auth auth' : AuthState) (c : StringMap) : Prop where
  before : identity auth = none
  settled : Resolution.Settled c
  manager : auth'.manager = auth.manager.setCredentials c
  stores : auth'.stores = auth.stores ∨ ∃ E, auth'.stores = (saveActive E auth c).2.stores

theorem Adopts.identity_eq (h : Adopts auth auth' c) : identity auth' = some c := by
  unfold identity
  rw [h.manager]
  rfl

/-- A save depends on the stores only. -/
theorem saveActive_stores (E : AuthEnv) (auth : AuthState) (manager : AuthManager) (c : StringMap) :
    (saveActive E { auth with manager } c).2.stores = (saveActive E auth c).2.stores := by
  unfold saveActive
  dsimp only
  split <;> rfl

/-- Credentials that are there are returned, and nothing else is looked at. -/
theorem credentials_of_identity (hc : identity auth = some c) (hsettled : Resolution.Settled c) :
    AuthManager.credentials E auth = (.ok c, auth) := by
  have hcached : auth.manager.cached E = some c := (cached_eq_some E).mpr ⟨hc, hsettled.valid⟩
  obtain ⟨n, hn, heq⟩ := credentials_of_cached hcached
  rw [normalize_of_ready hsettled.ready] at hn
  rw [heq, Except.ok.inj hn]

/-- All that asking for credentials can do. -/
theorem credentials_step (E : AuthEnv) (auth : AuthState)
    (hsettled : ∀ c, identity auth = some c → Resolution.Settled c) :
    (∃ c, identity auth = some c ∧ AuthManager.credentials E auth = (.ok c, auth)) ∨
    (∃ err, identity auth = none ∧ AuthManager.credentials E auth = (.error err, auth)) ∨
    (∃ c, Adopts auth (AuthManager.credentials E auth).2 c ∧
      ∀ c', (AuthManager.credentials E auth).1 = .ok c' → c' = c) := by
  cases hidentity : identity auth with
  | some c =>
      exact .inl ⟨c, rfl, credentials_of_identity hidentity (hsettled c hidentity)⟩
  | none =>
      right
      have hcached : auth.manager.cached E = none := by
        rw [cached, show auth.manager.cachedCredentials = none from hidentity]
        rfl
      rcases credentials_cases E auth with ⟨c, n, hsome, -⟩ | ⟨c, -, henv, heq⟩ |
        ⟨c, -, hfound, heq⟩ | ⟨err, -, -, heq⟩
      · rw [hcached] at hsome
        simp at hsome
      · -- the variables of the environment
        right
        rw [heq]
        exact ⟨c, ⟨hidentity, fromEnv_settled henv, rfl, .inl rfl⟩,
          fun c' h => (Except.ok.inj h).symm⟩
      · -- a stored blob, which is saved again
        right
        obtain ⟨parsed, -, hresolve⟩ := Option.bind_eq_some_iff.mp hfound
        obtain ⟨hmanager, hresult⟩ :=
          saveActive_eq E { auth with manager := auth.manager.setCredentials c } c
        rw [heq]
        refine ⟨c, ⟨hidentity, resolve_settled hresolve, hmanager,
          .inr ⟨E, saveActive_stores E auth _ c⟩⟩, fun c' h => ?_⟩
        rcases hresult with ⟨-, hok⟩ | ⟨-, err, herr⟩
        · rw [hok] at h
          exact (Except.ok.inj h).symm
        · rw [herr] at h
          simp at h
      · exact .inl ⟨err, rfl, heq⟩

/-- The address of a call that gets as far as its credentials. -/
def address (S : Schemas) (U : UrlCrate) (config : Config) (endpoint : EndpointRecord)
    (operationId : String) (args : Json.Value) : Option (List Char) :=
  if S.input config.apiVersion operationId args = none ∧ config.rateLimit.toNat ≠ 0 then
    callUrl U config endpoint (argsMap args)
  else none

/-- The request of a call with these credentials. -/
def requestWith (endpoint : EndpointRecord) (args : Json.Value) (url : List Char)
    (c : StringMap) : Request :=
  Stages.requestOf endpoint args url (decorate (callHeaders endpoint (argsMap args)) c)

theorem applyAuthHeaders_stdio (E : AuthEnv) (auth : AuthState) (headers : StringMap)
    (requestOverride : Option RequestCredentials) :
    applyAuthHeaders E auth headers .stdio requestOverride =
      ((AuthManager.credentials E auth).1.map (decorate headers),
        (AuthManager.credentials E auth).2) := by
  cases requestOverride <;> rfl

/-- Without an address nothing is asked for and nothing sent, -/
theorem callOperation_of_no_address {i : Invocation} (auth : AuthState)
    (h : address S U config i.endpoint i.operationId i.args = none) :
    (callOperation S U config i auth).executed.auth = auth ∧
      (callOperation S U config i auth).executed.dispatched = none ∧
      (callOperation S U config i auth).executed.sends = 0 := by
  cases hvalid : validateInput S config.apiVersion i.operationId i.args with
  | error err =>
      rw [callOperation_of_invalid hvalid]
      exact ⟨rfl, rfl, rfl⟩
  | ok valid =>
      have hinput : S.input config.apiVersion i.operationId i.args = none := by
        unfold validateInput at hvalid
        split at hvalid
        · assumption
        · simp at hvalid
      rw [callOperation_of_valid hvalid]
      have hacquire := Isolation.acquire_new config i.env.start
      by_cases hzero : config.rateLimit.toNat = 0
      · rw [if_pos hzero] at hacquire
        rw [execute_of_rejected hacquire]
        exact ⟨rfl, rfl, rfl⟩
      · rw [if_neg hzero] at hacquire
        rw [address, if_pos ⟨hinput, hzero⟩] at h
        have hprepare : prepare U (ApiClient.new config).config i.endpoint (argsMap i.args)
            i.requestOverride i.env.auth auth = (.error .url, auth) :=
          Stages.prepare_of_no_url h i.requestOverride i.env auth
        rw [execute_of_unprepared hacquire (congrArg Prod.fst hprepare), hprepare]
        exact ⟨rfl, rfl, rfl⟩

/-- ... and with one the call is sent if there are credentials. -/
theorem callOperation_of_address {i : Invocation} {url : List Char} (auth : AuthState)
    (hstdio : config.transport = .stdio)
    (h : address S U config i.endpoint i.operationId i.args = some url) :
    (callOperation S U config i auth).executed.auth =
        (AuthManager.credentials i.env.auth auth).2 ∧
      (callOperation S U config i auth).executed.dispatched =
        (AuthManager.credentials i.env.auth auth).1.toOption.map
          (requestWith i.endpoint i.args url) ∧
      ((callOperation S U config i auth).executed.dispatched = none →
        (callOperation S U config i auth).executed.sends = 0) := by
  unfold address at h
  split at h
  · rename_i hpassed
    have hvalid : validateInput S config.apiVersion i.operationId i.args = .ok () := by
      rw [validateInput, hpassed.1]
    have hacquire := Isolation.acquire_new config i.env.start
    rw [if_neg hpassed.2] at hacquire
    have hprepare : prepare U (ApiClient.new config).config i.endpoint (argsMap i.args)
        i.requestOverride i.env.auth auth = _ :=
      Stages.prepare_of_url h i.requestOverride i.env auth
    rw [Stages.applied, hstdio, applyAuthHeaders_stdio] at hprepare
    rw [callOperation_of_valid hvalid]
    cases hfound : (AuthManager.credentials i.env.auth auth).1 with
    | error err =>
        rw [hfound] at hprepare
        rw [execute_of_unprepared hacquire (congrArg Prod.fst hprepare), hprepare]
        exact ⟨rfl, rfl, fun _ => rfl⟩
    | ok c =>
        rw [hfound] at hprepare
        have henter : CircuitBreaker.default.enter i.env.start = some .default := rfl
        rw [execute_of_prepared hacquire (congrArg Prod.fst hprepare), hprepare,
          send_of_enter henter]
        exact ⟨rfl, rfl, fun hnone => by simp at hnone⟩
  · simp at h

/-- What one call does to the manager, and with which credentials it is sent. -/
theorem call_step {i : Invocation} (hstdio : config.transport = .stdio)
    (hsettled : ∀ c, identity auth = some c → Resolution.Settled c) :
    let executed := (callOperation S U config i auth).executed
    (executed.auth = auth ∨ ∃ c, Adopts auth executed.auth c) ∧
      (executed.dispatched = none → executed.sends = 0) ∧
      ∀ sent, executed.dispatched = some sent → ∃ c url, identity executed.auth = some c ∧
        address S U config i.endpoint i.operationId i.args = some url ∧
        sent = requestWith i.endpoint i.args url c := by
  intro executed
  cases haddress : address S U config i.endpoint i.operationId i.args with
  | none =>
      obtain ⟨hauth, hdispatched, hsends⟩ := callOperation_of_no_address auth haddress
      exact ⟨.inl hauth, fun _ => hsends,
        fun sent hsent => by simp [executed, hdispatched] at hsent⟩
  | some url =>
      obtain ⟨hauth, hdispatched, hsends⟩ :=
        callOperation_of_address auth hstdio haddress
      have hsent : ∀ sent, executed.dispatched = some sent → ∃ c,
          (AuthManager.credentials i.env.auth auth).1 = .ok c ∧
            sent = requestWith i.endpoint i.args url c := by
        intro sent hsent
        rw [show executed.dispatched = _ from hdispatched] at hsent
        cases hfound : (AuthManager.credentials i.env.auth auth).1 with
        | error err => simp [hfound, Except.toOption] at hsent
        | ok c =>
            rw [hfound] at hsent
            exact ⟨c, rfl, (Option.some.inj hsent).symm⟩
      rw [show executed.auth = _ from hauth]
      rcases credentials_step i.env.auth auth hsettled with ⟨c, hidentity, heq⟩ |
        ⟨err, -, heq⟩ | ⟨c, hadopts, hresult⟩
      · refine ⟨.inl (by rw [heq]), hsends, fun sent h => ?_⟩
        obtain ⟨c', hc', rfl⟩ := hsent sent h
        rw [heq] at hc' ⊢
        obtain rfl := Except.ok.inj hc'
        exact ⟨c, url, hidentity, rfl, rfl⟩
      · refine ⟨.inl (by rw [heq]), hsends, fun sent h => ?_⟩
        obtain ⟨c', hc', -⟩ := hsent sent h
        rw [heq] at hc'
        simp at hc'
      · refine ⟨.inr ⟨c, hadopts⟩, hsends, fun sent h => ?_⟩
        obtain ⟨c', hc', rfl⟩ := hsent sent h
        obtain rfl := hresult c' hc'
        exact ⟨c', url, hadopts.identity_eq, rfl, rfl⟩

/-! ## Every interleaving -/

/-- What a call sent, if anything, it sent with the credentials of the process. -/
structure SentAs (S : Schemas) (U : UrlCrate) (config : Config) (catalog : Catalog)
    (auth : AuthState) (request : CallRequest) (executed : Executed) : Prop where
  silent : executed.dispatched = none → executed.sends = 0
  sent : ∀ sent, executed.dispatched = some sent → ∃ c endpoint url, identity auth = some c ∧
    findEndpoint catalog request.operationId = .ok endpoint ∧
    address S U config endpoint request.operationId request.arguments = some url ∧
    sent = requestWith endpoint request.arguments url c

theorem SentAs.mono {request : CallRequest} {executed : Executed}
    (h : SentAs S U config catalog auth request executed)
    (hidentity : ∀ c, identity auth = some c → identity auth' = some c) :
    SentAs S U config catalog auth' request executed := by
  refine ⟨h.silent, fun sent hsent => ?_⟩
  obtain ⟨c, endpoint, url, hc, hrest⟩ := h.sent sent hsent
  exact ⟨c, endpoint, url, hidentity c hc, hrest⟩

/-- The invariant: credentials have been adopted at most once, and all that was sent was sent
with them. -/
structure Identified (S : Schemas) (U : UrlCrate) (config : Config) (catalog : Catalog)
    (auth : AuthState) (s : Server) : Prop where
  settled : ∀ c, identity s.auth = some c → Resolution.Settled c
  adopted : s.auth = auth ∨ ∃ c, Adopts auth s.auth c
  pending : ∀ n call, s.calls n = .pending call →
    findEndpoint catalog call.request.operationId = .ok call.endpoint
  done : ∀ n request executed, s.calls n = .done request executed →
    SentAs S U config catalog s.auth request executed

/-- Setting the state of one call keeps what is known of the others. -/
theorem Identified.setCall (h : Identified S U config catalog auth s) {n : Nat}
    {state : CallState}
    (hpending : ∀ call, state = .pending call →
      findEndpoint catalog call.request.operationId = .ok call.endpoint)
    (hdone : ∀ request executed, state = .done request executed →
      SentAs S U config catalog s.auth request executed) :
    Identified S U config catalog auth (s.setCall n state) := by
  refine ⟨h.settled, h.adopted, ?_, ?_⟩
  · intro m call hm
    by_cases hmn : m = n
    · subst hmn
      exact hpending call (by simpa [Server.setCall] using hm)
    · exact h.pending m call (by simpa [Server.setCall, hmn] using hm)
  · intro m request executed hm
    by_cases hmn : m = n
    · subst hmn
      exact hdone request executed (by simpa [Server.setCall] using hm)
    · exact h.done m request executed (by simpa [Server.setCall, hmn] using hm)

/-- What has been adopted stays. -/
theorem Identified.auth_change (h : Identified S U config catalog auth s)
    (hchange : auth' = s.auth ∨ ∃ c, Adopts s.auth auth' c) :
    (∀ c, identity auth' = some c → Resolution.Settled c) ∧
      (auth' = auth ∨ ∃ c, Adopts auth auth' c) ∧
      ∀ c, identity s.auth = some c → identity auth' = some c := by
  rcases hchange with rfl | ⟨c, hadopts⟩
  · exact ⟨h.settled, h.adopted, fun _ hc => hc⟩
  · refine ⟨?_, .inr ⟨c, ?_⟩, fun c' hc' => ?_⟩
    · intro c' hc'
      rw [hadopts.identity_eq] at hc'
      exact Option.some.inj hc' ▸ hadopts.settled
    · rcases h.adopted with heq | ⟨c', hbefore⟩
      · exact heq ▸ hadopts
      · have hnone := hadopts.before
        rw [hbefore.identity_eq] at hnone
        simp at hnone
    · rw [hadopts.before] at hc'
      simp at hc'

theorem identified_step (hstdio : config.transport = .stdio) :
    (server S U config catalog).Inductive (fun _ _ => True)
      (Identified S U config catalog auth) := by
  intro s e s' h _ hstep
  rcases step_cases hstep with ⟨n, request, err, -, herr, rfl⟩ |
    ⟨n, request, endpoint, -, hendpoint, rfl⟩ | ⟨n, -, -, rfl⟩ |
    ⟨n, env, call, -, hcall, -, rfl⟩ | ⟨n, -, rfl⟩
  · refine h.setCall (fun _ hp => by simp at hp) fun request' executed hd => ?_
    obtain ⟨rfl, rfl⟩ := CallState.done.inj hd
    exact ⟨fun _ => rfl, fun sent hsent => by simp [stopped] at hsent⟩
  · refine h.setCall (fun call hp => ?_) fun _ _ hd => by simp at hd
    rw [← CallState.pending.inj hp]
    exact hendpoint
  · exact ⟨h.settled, h.adopted, h.pending, h.done⟩
  · -- the call that holds the lock is served
    obtain ⟨hchange, hsilent, hsent⟩ :=
      call_step (S := S) (U := U) (i := invocation call env) hstdio h.settled
    obtain ⟨hsettled, hadopted, hidentity⟩ := h.auth_change hchange
    refine ⟨hsettled, hadopted, ?_, ?_⟩
    · intro m other hm
      by_cases hmn : m = n
      · subst hmn
        simp at hm
      · exact h.pending m other (by simpa [hmn] using hm)
    · intro m request executed hm
      by_cases hmn : m = n
      · subst hmn
        obtain ⟨rfl, rfl⟩ : call.request = request ∧
            (callOperation S U config (invocation call env) s.auth).executed = executed := by
          simpa using hm
        refine ⟨hsilent, fun sent h' => ?_⟩
        obtain ⟨c, url, hc, haddress, rfl⟩ := hsent sent h'
        exact ⟨c, call.endpoint, url, hc, h.pending m call hcall, haddress, rfl⟩
      · exact (h.done m request executed (by simpa [hmn] using hm)).mono hidentity
  · have hrelease : Identified S U config catalog auth (s.release n) :=
      ⟨by simpa using h.settled, by simpa using h.adopted, by simpa using h.pending,
        by simpa using h.done⟩
    exact hrelease.setCall (fun _ hp => by simp at hp) fun _ _ hd => by simp at hd

theorem identified_initial (hnew : identity auth = none) :
    Identified S U config catalog auth (.initial auth) where
  settled c h := by
    rw [show identity (Server.initial auth).auth = none from hnew] at h
    simp at h
  adopted := .inl rfl
  pending _ _ h := by simp [Server.initial] at h
  done _ _ _ h := by simp [Server.initial] at h

/-- Once there are credentials nothing changes them. -/
theorem Identified.frozen (hstdio : config.transport = .stdio)
    (h : Identified S U config catalog auth s) (hc : identity s.auth = some c)
    {events : List Event} (hrun : (server S U config catalog).run s events = some s') :
    s'.auth = s.auth := by
  have hhere : Identified S U config catalog s.auth s := ⟨h.settled, .inl rfl, h.pending, h.done⟩
  rcases ((identified_step hstdio).reach hhere hrun).adopted with hsame | ⟨c', hadopts⟩
  · exact hsame
  · have hnone := hadopts.before
    rw [hc] at hnone
    simp at hnone

/-- **One identity.** In every run on stdio of a manager that starts without credentials, whatever
the environment and the stores are at each call: the shared state changes at most once, when
credentials are adopted, and then it stays; every request that is sent in the run has the headers
that these credentials make; and a call that is not sent sends nothing. -/
theorem one_identity (hstdio : config.transport = .stdio) (hnew : identity auth = none)
    {events : List Event}
    (hrun : (server S U config catalog).run (.initial auth) events = some s) :
    (s.auth = auth ∨ ∃ c, Adopts auth s.auth c) ∧
      (∀ n request executed, s.calls n = .done request executed →
        SentAs S U config catalog s.auth request executed) ∧
      ∀ c, identity s.auth = some c → ∀ (later : List Event) (s' : Server),
        (server S U config catalog).run s later = some s' → s'.auth = s.auth := by
  have h := (identified_step hstdio).reach (identified_initial hnew) hrun
  exact ⟨h.adopted, h.done, fun c hc later s' hlater => h.frozen hstdio hc hlater⟩

end

/-! ## Two calls, and two users in the environment -/

namespace TwoUsers

open Paths.Incident Isolation.TwoClients

def config : Config := { client.config with transport := .stdio }

def request : CallRequest :=
  { operationId := "getIncident", arguments := args "42", parts := none }

/-- The variables are set to a user. -/
def envOf (username : String) : CallEnv :=
  { Paths.Incident.env with
    auth := { Paths.Incident.env.auth with
      username := some username
      password := some "s3cr3t"
      base64 := Resolution.Colon.env.base64 } }

def events : List Event :=
  [.arrive 0 request, .arrive 1 request, .lock 1, .serve 1 (envOf "alice"), .lock 0,
    .serve 0 (envOf "bob")]

/-- Both calls are made for the first user. -/
theorem one_identity_two : ∃ s executed executed' sent sent',
    (server schemas (.whatwg host) config catalog).run (.initial auth) events = some s ∧
      s.calls 1 = .done request executed ∧ s.calls 0 = .done request executed' ∧
      executed.dispatched = some sent ∧ executed'.dispatched = some sent' ∧ sent' = sent ∧
      ∀ later s', (server schemas (.whatwg host) config catalog).run s later = some s' →
        s'.auth = s.auth := by
  have hrun : (server schemas (.whatwg host) config catalog).run (.initial auth) events = some _ :=
    rfl
  obtain ⟨-, hdone, hfrozen⟩ := one_identity rfl rfl hrun
  obtain ⟨c, endpoint, url, hc, hendpoint, hurl, hsent⟩ := (hdone 1 _ _ rfl).sent _ rfl
  obtain ⟨c', endpoint', url', hc', hendpoint', hurl', hsent'⟩ := (hdone 0 _ _ rfl).sent _ rfl
  obtain rfl := Option.some.inj (hc.symm.trans hc')
  obtain rfl := Except.ok.inj (hendpoint.symm.trans hendpoint')
  obtain rfl := Option.some.inj (hurl.symm.trans hurl')
  exact ⟨_, _, _, _, _, rfl, rfl, rfl, rfl, rfl, hsent'.trans hsent.symm, hfrozen c hc⟩

end TwoUsers

/-! ## After the setup wizard -/

section

variable {S : Schemas} {U : UrlCrate} {config : Config} {catalog : Catalog} {W E : AuthEnv}
  {I : Credentials.Stores → Prop} {content : Credentials.Stores → Option String}
  {auth : AuthState} {stores : Credentials.Stores} {s s' : Server} {username password : String}

/-- The crates of the wizard's process, none of its variables, and a storage that works. -/
structure Likewise (I : Credentials.Stores → Prop)
    (content : Credentials.Stores → Option String) (W E : AuthEnv) : Prop where
  platform : E.platform = W.platform
  base64 : E.base64 = W.base64
  unset : E.username = none ∨ E.password = none
  serves : Serves I content E

/-- The storage has the pair, or the cache has what was made of it. -/
structure Holding (I : Credentials.Stores → Prop) (content : Credentials.Stores → Option String)
    (W : AuthEnv) (username password : String) (auth : AuthState) : Prop where
  storage : I auth.stores
  pair : identity auth = some (built W username password) ∨ identity auth = none ∧
    ∃ fields, blob W.platform (content auth.stores) = some fields ∧ AtMostPair fields ∧
      fields.lookup "username" = some username ∧ fields.lookup "password" = some password

/-- A manager without credentials is a fresh one. -/
theorem eq_fresh (h : identity auth = none) : auth = fresh auth.stores := by
  obtain ⟨⟨authMethod, cachedCredentials⟩, stores⟩ := auth
  obtain rfl : cachedCredentials = none := h
  cases authMethod
  rfl

theorem built_congr (h : E.base64 = W.base64) (username password : String) :
    built E username password = built W username password := by
  rw [built, built, h]

/-- The pair is found, and kept. -/
theorem Holding.credentials (hE : Likewise I content W E)
    (h : Holding I content W username password auth) :
    (AuthManager.credentials E auth).1 = .ok (built W username password) ∧
      Holding I content W username password (AuthManager.credentials E auth).2 := by
  rcases h.pair with hc | ⟨hnone, fields, hblob, hpair, hu, hp⟩
  · rw [credentials_of_identity hc (settled_built W username password)]
    exact ⟨rfl, h⟩
  · have hauth := eq_fresh hnone
    have hstorage := h.storage
    rw [hauth] at hblob hstorage ⊢
    obtain ⟨text, htext, hparse⟩ := Option.bind_eq_some_iff.mp hblob
    have hload := hE.serves.load auth.stores hstorage
    rw [← hE.platform] at hparse
    -- what is found goes through the last stage, and is saved
    have hlast : AuthManager.credentials E (fresh auth.stores) =
        keep E (fresh auth.stores) (.ok (built E username password)) := by
      rw [← Authentication.fromStored_pair hpair hu hp]
      have hcached : (fresh auth.stores).manager.cached E = none := rfl
      have hunset : (fresh auth.stores).manager.fromEnv E = none :=
        Authentication.fromEnv_eq_none hE.unset
      have hloaded : Credentials.loadCredential E.platform E.loadKeychain E.loadIo
          (fresh auth.stores).stores credentialAccount = .ok (some text) :=
        hload.trans (congrArg _ htext)
      simp only [AuthManager.credentials, hcached, hunset, hloaded, hparse]
    obtain ⟨stores', hsave, hstorage', -⟩ := saveActive_of_serves (s := { fresh auth.stores with
      manager := (fresh auth.stores).manager.setCredentials (built E username password) })
      hE.serves hstorage (built E username password)
    have hkept : keep E (fresh auth.stores) (.ok (built E username password)) = _ := hsave
    rw [hlast, hkept, built_congr hE.base64]
    exact ⟨rfl, hstorage', .inl rfl⟩

/-- The request of a call that is made for the pair. -/
def pairRequest (S : Schemas) (U : UrlCrate) (config : Config) (catalog : Catalog) (W : AuthEnv)
    (username password : String) (request : CallRequest) : Option Request :=
  (findEndpoint catalog request.operationId).toOption.bind fun endpoint =>
    (address S U config endpoint request.operationId request.arguments).map fun url =>
      Stages.requestOf endpoint request.arguments url
        ((callHeaders endpoint (argsMap request.arguments)).insert "Authorization"
          (basicHeader W username password))

/-- The invariant: the pair is there, and every call that ended was made for it. -/
structure ForPair (S : Schemas) (U : UrlCrate) (config : Config) (catalog : Catalog)
    (I : Credentials.Stores → Prop) (content : Credentials.Stores → Option String) (W : AuthEnv)
    (username password : String) (s : Server) : Prop where
  holding : Holding I content W username password s.auth
  pending : ∀ n call, s.calls n = .pending call →
    findEndpoint catalog call.request.operationId = .ok call.endpoint
  done : ∀ n request executed, s.calls n = .done request executed →
    executed.dispatched = pairRequest S U config catalog W username password request

theorem ForPair.setCall (h : ForPair S U config catalog I content W username password s) {n : Nat}
    {state : CallState}
    (hpending : ∀ call, state = .pending call →
      findEndpoint catalog call.request.operationId = .ok call.endpoint)
    (hdone : ∀ request executed, state = .done request executed →
      executed.dispatched = pairRequest S U config catalog W username password request) :
    ForPair S U config catalog I content W username password (s.setCall n state) := by
  refine ⟨h.holding, ?_, ?_⟩
  · intro m call hm
    by_cases hmn : m = n
    · subst hmn
      exact hpending call (by simpa [Server.setCall] using hm)
    · exact h.pending m call (by simpa [Server.setCall, hmn] using hm)
  · intro m request executed hm
    by_cases hmn : m = n
    · subst hmn
      exact hdone request executed (by simpa [Server.setCall] using hm)
    · exact h.done m request executed (by simpa [Server.setCall, hmn] using hm)

/-- A call that is served is made for the pair. -/
theorem Holding.call (hstdio : config.transport = .stdio) {i : Invocation}
    (hE : Likewise I content W i.env.auth) (h : Holding I content W username password auth) :
    Holding I content W username password (callOperation S U config i auth).executed.auth ∧
      (callOperation S U config i auth).executed.dispatched =
        (address S U config i.endpoint i.operationId i.args).map fun url =>
          Stages.requestOf i.endpoint i.args url
            ((callHeaders i.endpoint (argsMap i.args)).insert "Authorization"
              (basicHeader W username password)) := by
  cases haddress : address S U config i.endpoint i.operationId i.args with
  | none =>
      obtain ⟨hauth, hdispatched, -⟩ := callOperation_of_no_address auth haddress
      rw [hauth, hdispatched]
      exact ⟨h, rfl⟩
  | some url =>
      obtain ⟨hauth, hdispatched, -⟩ := callOperation_of_address auth hstdio haddress
      obtain ⟨hok, hkeeps⟩ := h.credentials hE
      rw [hauth, hdispatched, hok]
      refine ⟨hkeeps, congrArg some ?_⟩
      rw [requestWith, decorate_built]

theorem forPair_step (hstdio : config.transport = .stdio) :
    (server S U config catalog).Inductive
      (fun _ e => ∀ n env, e = .serve n env → Likewise I content W env.auth)
      (ForPair S U config catalog I content W username password) := by
  intro s e s' h henv hstep
  rcases step_cases hstep with ⟨n, request, err, -, herr, rfl⟩ |
    ⟨n, request, endpoint, -, hendpoint, rfl⟩ | ⟨n, -, -, rfl⟩ |
    ⟨n, env, call, hserve, hcall, -, rfl⟩ | ⟨n, -, rfl⟩
  · refine h.setCall (fun _ hp => by simp at hp) fun request' executed hd => ?_
    obtain ⟨rfl, rfl⟩ := CallState.done.inj hd
    rw [pairRequest, herr]
    rfl
  · refine h.setCall (fun call hp => ?_) fun _ _ hd => by simp at hd
    rw [← CallState.pending.inj hp]
    exact hendpoint
  · exact ⟨h.holding, h.pending, h.done⟩
  · -- the call that holds the lock is served
    have hE : Likewise I content W (invocation call env).env.auth := henv n env hserve
    obtain ⟨hholding, hsent⟩ := h.holding.call (S := S) (U := U) hstdio hE
    refine ⟨hholding, ?_, ?_⟩
    · intro m other hm
      by_cases hmn : m = n
      · subst hmn
        simp at hm
      · exact h.pending m other (by simpa [hmn] using hm)
    · intro m request executed hm
      by_cases hmn : m = n
      · subst hmn
        obtain ⟨rfl, rfl⟩ : call.request = request ∧
            (callOperation S U config (invocation call env) s.auth).executed = executed := by
          simpa using hm
        rw [hsent, pairRequest, h.pending m call hcall]
        rfl
      · exact h.done m request executed (by simpa [hmn] using hm)
  · have hrelease : ForPair S U config catalog I content W username password (s.release n) :=
      ⟨by simpa using h.holding, by simpa using h.pending, by simpa using h.done⟩
    exact hrelease.setCall (fun _ hp => by simp at hp) fun _ _ hd => by simp at hd

/-- The wizard leaves the pair in the storage. -/
theorem holding_saveAnswers (hP : W.platform.Lawful) (hW : Serves I content W) (hI : I stores)
    (username password : String) :
    (Setup.saveAnswers W stores username password).1 = .ok () ∧
      Holding I content W username password
        (fresh (Setup.saveAnswers W stores username password).2) := by
  obtain ⟨stores', hsave, hI', hcontent⟩ := hW.save stores
    (W.platform.toStr (Setup.promptCredentials username password)) hI
  obtain ⟨fields, hparse, hsame⟩ :=
    hP.fromStr_toStr (Setup.promptCredentials username password)
  have hsaved : Setup.saveAnswers W stores username password = (.ok (), stores') := hsave
  rw [hsaved]
  refine ⟨rfl, hI', .inr ⟨rfl, fields, ?_, fun key hkey => ?_, ?_, ?_⟩⟩
  · show blob W.platform (content stores') = some fields
    rw [hcontent]
    exact hparse
  · rw [← AList.lookup_isSome, hsame, AList.lookup_isSome] at hkey
    simp only [Setup.promptCredentials, AList.mem_insert, AList.notMem_empty, or_false] at hkey
    exact hkey.symm
  · rw [hsame, Setup.promptCredentials, AList.lookup_insert_ne (by decide), AList.lookup_insert]
  · rw [hsame, Setup.promptCredentials, AList.lookup_insert]

/-- **From the setup wizard to the requests.** Once the wizard has saved its two answers, in a
storage that works as a map, every run of a server on stdio without the two variables sends each
valid call, with the Basic header of these answers, and nothing else; and from the header a server
that decodes it reads the answers, unless the username has a colon. -/
theorem setup_identity (hstdio : config.transport = .stdio) (hP : W.platform.Lawful)
    (hW : Serves I content W) (hI : I stores) (username password : String) {events : List Event}
    (henv : ∀ n env, .serve n env ∈ events → Likewise I content W env.auth)
    (hrun : (server S U config catalog).run
      (.initial (fresh (Setup.saveAnswers W stores username password).2)) events = some s) :
    (Setup.saveAnswers W stores username password).1 = .ok () ∧
      ∀ n request executed, s.calls n = .done request executed →
        executed.dispatched = pairRequest S U config catalog W username password request ∧
        ∀ decode, (∀ bytes, decode (W.base64 bytes) = some bytes) → ':' ∉ username.toList →
          ∀ sent, executed.dispatched = some sent →
            Identifies decode (.ok sent.headers) username password := by
  obtain ⟨hsaved, hholding⟩ := holding_saveAnswers hP hW hI username password
  have hstart : ForPair S U config catalog I content W username password
      (.initial (fresh (Setup.saveAnswers W stores username password).2)) :=
    ⟨hholding, by simp [Server.initial], by simp [Server.initial]⟩
  have hend := (forPair_step hstdio).run hstart
    (Lts.along_of_forall_mem fun e he _ n env heq => henv n env (heq ▸ he)) hrun
  refine ⟨hsaved, fun n request executed hdone => ⟨hend.done n request executed hdone, ?_⟩⟩
  intro decode hdecode hcolon sent hsent
  rw [hend.done n request executed hdone] at hsent
  obtain ⟨endpoint, -, hmap⟩ := Option.bind_eq_some_iff.mp hsent
  obtain ⟨url, -, rfl⟩ := Option.map_eq_some_iff.mp hmap
  exact ⟨_, _, rfl, AList.lookup_insert _, (readToken_iff hdecode username password).mpr hcolon⟩

end

namespace Alice

open Paths.Incident Isolation.TwoClients Resolution.Colon

/-- The keychain works, and the variables are unset. -/
def callEnv : CallEnv := { Paths.Incident.env with auth := Resolution.Colon.env }

def events : List Event := [.arrive 0 TwoUsers.request, .lock 0, .serve 0 callEnv]

/-- What the wizard was told is what the server is told. -/
theorem setup_identity_alice : ∃ s executed sent,
    (server schemas (.whatwg host) TwoUsers.config catalog).run (.initial (fresh
      (Setup.saveAnswers Resolution.Colon.env Credentials.empty "alice" "s3cr3t").2)) events =
        some s ∧
      s.calls 0 = .done TwoUsers.request executed ∧ executed.dispatched = some sent ∧
      sent.headers.lookup "Authorization" = some "Basic YWxpY2U6czNjcjN0" ∧
      Identifies fromBase64 (.ok sent.headers) "alice" "s3cr3t" := by
  have hserves := serves_keychain (E := Resolution.Colon.env) rfl rfl
  have hrun : (server schemas (.whatwg host) TwoUsers.config catalog).run (.initial (fresh
      (Setup.saveAnswers Resolution.Colon.env Credentials.empty "alice" "s3cr3t").2)) events =
      some _ := rfl
  have henv : ∀ n env, .serve n env ∈ events → Likewise (fun stores => stores.file = none)
      (fun stores => stores.keychain credentialAccount) Resolution.Colon.env env.auth := by
    intro n env hmem
    obtain ⟨-, rfl⟩ : n = 0 ∧ env = callEnv := by simpa [events] using hmem
    exact ⟨rfl, rfl, .inl rfl, hserves⟩
  obtain ⟨-, hdone⟩ := setup_identity rfl Credentials.plain_lawful hserves rfl "alice" "s3cr3t"
    henv hrun
  obtain ⟨hdispatched, hreads⟩ := hdone 0 _ _ rfl
  have hsent := hdispatched.trans (show pairRequest schemas (.whatwg host) TwoUsers.config catalog
    Resolution.Colon.env "alice" "s3cr3t" TwoUsers.request = some _ from rfl)
  exact ⟨_, _, _, hrun, rfl, hsent, AList.lookup_insert _,
    hreads fromBase64 fromBase64_base64 (by decide) _ hsent⟩

end Alice

end TopdeskMcp.Theorems.Identity
