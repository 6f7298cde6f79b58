import TopdeskMcp.Cli.Call
import TopdeskMcp.Cli.TestConnection
import TopdeskMcp.Theorems.Headers
import TopdeskMcp.Theorems.Resolution
import TopdeskMcp.Theorems.Stages

/-!
# `test-connection` and `call`

Both commands have a fresh auth manager over the same store, and neither has the headers of
an incoming request. `test-connection` asks for the credentials of stdio, `call` for those of
the configured transport. On stdio they get the same (`applied_stdio`); over HTTP `call` gets
none, whatever the other one found (`applied_http`).
-/

namespace TopdeskMcp.Theorems.Agreement

open TopdeskMcp ApiClient Authentication

section

variable (S : Schemas) (U : UrlCrate) (statusText : Nat → String)
  (fromStr : String → Option Json.Value) (catalog : String → Catalog) (config : Config)
  (env : CallEnv) (stores : Credentials.Stores) (outcome : SendOutcome)
  (operationId argsJson : String)

/-- The headers with a credential's header, if it has one. -/
def attach (headers : StringMap) : Option (String × String) → StringMap
  | some (name, value) => headers.insert name value
  | none => headers

/-- The run of `test-connection` with this configuration, -/
def tested : Tested := TestConnection.run U statusText (.ok config) env.auth stores outcome

/-- ... and the run of `call`. -/
def called : Except CallError Called :=
  Call.run S U fromStr catalog (.ok config) operationId argsJson env stores

/-- The call is valid: it has arguments and an endpoint, they fit together and have an address,
and the limit lets a call pass. -/
def ValidCall : Prop :=
  ∃ endpoint args, Call.input fromStr (catalog config.apiVersion) operationId argsJson =
      .ok (endpoint, args) ∧
    validateInput S config.apiVersion operationId args = .ok () ∧ config.rateLimit.toNat ≠ 0 ∧
    (callUrl U config endpoint (argsMap args)).isSome

/-- The two commands agree: a request of `call` has the credential header that `test-connection`
attaches, and where `test-connection` has credentials, a valid call has its headers too. -/
structure Agree : Prop where
  same : ∀ endpoint args sent request,
    Call.input fromStr (catalog config.apiVersion) operationId argsJson = .ok (endpoint, args) →
    called S U fromStr catalog config env stores operationId argsJson = .ok sent →
    sent.executed.dispatched = some request →
    ∃ header, (tested U statusText config env stores outcome).decorated = some (attach ∅ header) ∧
      request.headers = attach (callHeaders endpoint (argsMap args)) header
  supplied : (tested U statusText config env stores outcome).decorated.isSome →
    ValidCall S U fromStr catalog config operationId argsJson →
    ∃ sent, called S U fromStr catalog config env stores operationId argsJson = .ok sent ∧
      sent.executed.decorated.isSome

/-- The environment has a pair, or the store has credentials that can be used and saved. -/
def HasCredentials : Prop :=
  (env.auth.username.isSome ∧ env.auth.password.isSome) ∨
    ∃ c, Resolution.found env.auth (fresh stores) = some c ∧ Resolution.Kept env.auth stores c

/-! ## The credentials of stdio -/

variable {S U statusText fromStr catalog config env stores outcome operationId argsJson}

theorem decorate_eq_attach (headers credentials : StringMap) :
    AuthManager.decorate headers credentials =
      attach headers (Headers.credentialHeader credentials) := by
  cases hheader : Headers.credentialHeader credentials with
  | some header => exact Headers.decorate_eq_insert hheader
  | none =>
      unfold Headers.credentialHeader at hheader
      unfold AuthManager.decorate
      generalize credentials.lookup "request_header_name" = headerName at hheader ⊢
      generalize credentials.lookup "request_header_value" = headerValue at hheader ⊢
      generalize credentials.lookup "authorization_header" = header at hheader ⊢
      generalize credentials.lookup "api_key" = apiKey at hheader ⊢
      cases headerName <;> cases headerValue <;> cases header <;> cases apiKey <;>
        simp_all [attach]

theorem isSome_fromEnv_iff (E : AuthEnv) : ((AuthManager.new .basic).fromEnv E).isSome ↔
    E.username.isSome ∧ E.password.isSome := by
  cases hu : E.username with
  | none => simp [fromEnv_eq_none (.inl hu)]
  | some username =>
      cases hp : E.password with
      | none => simp [fromEnv_eq_none (.inr hp)]
      | some password => simp [fromEnv_pair hu hp]

/-- A fresh manager on stdio finds credentials where there are some. -/
theorem isSome_credentials_iff :
    (AuthManager.credentials env.auth (fresh stores)).1.toOption.isSome ↔
      HasCredentials env stores := by
  unfold HasCredentials
  rw [← isSome_fromEnv_iff]
  rcases Resolution.credentials_cases env.auth (fresh stores) with ⟨_, _, hcached, -⟩ |
    ⟨c, -, hfrom, heq⟩ | ⟨c, hnone, hfound, heq⟩ | ⟨err, hnone, hfound, heq⟩
  · exact absurd hcached (by simp [fresh, AuthManager.new, AuthManager.cached])
  · have hsome : ((AuthManager.new .basic).fromEnv env.auth).isSome := by
      rw [show (AuthManager.new .basic).fromEnv env.auth = some c from hfrom]
      rfl
    rw [heq]
    exact ⟨fun _ => .inl hsome, fun _ => rfl⟩
  · have hfrom : (AuthManager.new .basic).fromEnv env.auth = none := hnone.2
    obtain ⟨-, ⟨hkept, hok⟩ | ⟨hlost, err, herr⟩⟩ := Resolution.saveActive_eq env.auth
      { fresh stores with manager := (fresh stores).manager.setCredentials c } c
    · rw [heq, hok]
      exact ⟨fun _ => .inr ⟨c, hfound, hkept⟩, fun _ => rfl⟩
    · rw [heq, herr, hfrom]
      constructor
      · intro h
        simp [Except.toOption] at h
      · intro h
        obtain ⟨c', hfound', hkept⟩ := h.resolve_left (by simp)
        rw [hfound] at hfound'
        exact absurd (Option.some.inj hfound' ▸ hkept) hlost
  · have hfrom : (AuthManager.new .basic).fromEnv env.auth = none := hnone.2
    rw [heq, hfrom, hfound]
    simp [Except.toOption]

theorem authState_new (authMethod : AuthMethod) :
    ({ manager := .new authMethod, stores } : AuthState) = fresh stores := by
  cases authMethod
  rfl

theorem tested_decorated : (tested U statusText config env stores outcome).decorated =
    (AuthManager.credentials env.auth (fresh stores)).1.toOption.map
      fun credentials => attach ∅ (Headers.credentialHeader credentials) := by
  unfold tested TestConnection.run
  dsimp only
  rw [authState_new, Headers.applyAuthHeaders_eq]
  show _ = (AuthManager.credentials env.auth (fresh stores)).1.toOption.map _
  unfold Headers.usedCredentials
  cases (AuthManager.credentials env.auth (fresh stores)).1 with
  | error err => rfl
  | ok credentials => exact congrArg some (decorate_eq_attach ∅ credentials)

/-! ## The call -/

/-- A call that is sent has the headers that the auth manager returned. -/
theorem dispatched_headers {i : Invocation} {auth : AuthState} {request : Request}
    (h : (callOperation S U config i auth).executed.dispatched = some request) :
    (AuthManager.applyAuthHeaders i.env.auth auth (callHeaders i.endpoint (argsMap i.args))
      config.transport i.requestOverride).1 = .ok request.headers := by
  cases hvalid : validateInput S config.apiVersion i.operationId i.args with
  | error err =>
      rw [callOperation_of_invalid hvalid] at h
      simp [stopped] at h
  | ok valid =>
      rw [callOperation_of_valid hvalid] at h
      obtain ⟨url, headers, -, hheaders, rfl⟩ := prepare_eq_ok (execute_dispatched h)
      exact hheaders

/-- A valid call with an address gets the headers that the auth manager returns. -/
theorem valid_decorated {i : Invocation} {auth : AuthState}
    (hvalid : validateInput S config.apiVersion i.operationId i.args = .ok ())
    (hlimit : config.rateLimit.toNat ≠ 0)
    (hurl : (callUrl U config i.endpoint (argsMap i.args)).isSome) :
    (callOperation S U config i auth).executed.decorated =
      (AuthManager.applyAuthHeaders i.env.auth auth (callHeaders i.endpoint (argsMap i.args))
        config.transport i.requestOverride).1.toOption := by
  have hacquire := Isolation.acquire_new config i.env.start
  rw [if_neg hlimit] at hacquire
  obtain ⟨url, hurl⟩ := Option.isSome_iff_exists.mp hurl
  have hprepare := congrArg Prod.fst
    (Stages.prepare_of_url hurl i.requestOverride i.env auth)
  rw [callOperation_of_valid hvalid]
  cases happlied : (AuthManager.applyAuthHeaders i.env.auth auth
      (callHeaders i.endpoint (argsMap i.args)) config.transport i.requestOverride).1 with
  | error err =>
      rw [execute_of_unprepared hacquire (hprepare.trans (congrArg (Except.map _) happlied))]
      rfl
  | ok headers =>
      rw [execute_of_prepared hacquire (hprepare.trans (congrArg (Except.map _) happlied))]
      rfl

/-- `call` with this input is `call_operation` without the headers of a request. -/
theorem called_eq {endpoint : EndpointRecord} {args : Json.Value}
    (h : Call.input fromStr (catalog config.apiVersion) operationId argsJson =
      .ok (endpoint, args)) :
    called S U fromStr catalog config env stores operationId argsJson =
      .ok (callOperation S U config { endpoint, operationId, args, requestOverride := none, env }
        (fresh stores)) := by
  unfold called Call.run
  dsimp only
  rw [authState_new, h]
  rfl

/-- A request of `call` has the headers that a fresh manager returns, -/
theorem applied_of_sent {endpoint : EndpointRecord} {args : Json.Value} {sent : Called}
    {request : Request}
    (hinput : Call.input fromStr (catalog config.apiVersion) operationId argsJson =
      .ok (endpoint, args))
    (hcalled : called S U fromStr catalog config env stores operationId argsJson = .ok sent)
    (hsent : sent.executed.dispatched = some request) :
    (AuthManager.applyAuthHeaders env.auth (fresh stores) (callHeaders endpoint (argsMap args))
      config.transport none).1 = .ok request.headers := by
  rw [called_eq hinput] at hcalled
  rw [← Except.ok.inj hcalled] at hsent
  exact dispatched_headers hsent

/-- ... and a valid call has them, if there are any. -/
theorem decorated_of_valid
    (hcall : ValidCall S U fromStr catalog config operationId argsJson) :
    ∃ (endpoint : EndpointRecord) (args : Json.Value) (sent : Called),
      called S U fromStr catalog config env stores operationId argsJson = .ok sent ∧
      sent.executed.decorated = (AuthManager.applyAuthHeaders env.auth (fresh stores)
        (callHeaders endpoint (argsMap args)) config.transport none).1.toOption := by
  obtain ⟨endpoint, args, hinput, hvalid, hlimit, hurl⟩ := hcall
  exact ⟨endpoint, args, _, called_eq hinput, valid_decorated hvalid hlimit hurl⟩

/-- On stdio the headers are those of the credentials that `test-connection` has, -/
theorem applied_stdio (hstdio : config.transport = .stdio) (headers : StringMap) :
    (AuthManager.applyAuthHeaders env.auth (fresh stores) headers config.transport none).1 =
      (AuthManager.credentials env.auth (fresh stores)).1.map
        fun credentials => attach headers (Headers.credentialHeader credentials) := by
  rw [hstdio, Headers.applyAuthHeaders_eq, funext (decorate_eq_attach headers)]
  rfl

/-- ... and over HTTP there are none. -/
theorem applied_http (hhttp : config.transport = .http) (headers : StringMap) :
    (AuthManager.applyAuthHeaders env.auth (fresh stores) headers config.transport none).1 =
      .error (.message AuthManager.noRequestCredentials) := by
  rw [hhttp]
  rfl

theorem agree_of_stdio (hstdio : config.transport = .stdio) :
    Agree S U statusText fromStr catalog config env stores outcome operationId argsJson := by
  constructor
  · intro endpoint args sent request hinput hcalled hsent
    have hheaders := applied_of_sent hinput hcalled hsent
    rw [applied_stdio hstdio] at hheaders
    rw [tested_decorated]
    cases hcredentials : (AuthManager.credentials env.auth (fresh stores)).1 with
    | error err =>
        rw [hcredentials] at hheaders
        simp [Except.map] at hheaders
    | ok credentials =>
        rw [hcredentials] at hheaders
        exact ⟨_, rfl, (Except.ok.inj hheaders).symm⟩
  · intro hsome hcall
    obtain ⟨endpoint, args, sent, hsent, hdecorated⟩ := decorated_of_valid hcall
    refine ⟨sent, hsent, ?_⟩
    rw [hdecorated, applied_stdio hstdio]
    rw [tested_decorated] at hsome
    cases hcredentials : (AuthManager.credentials env.auth (fresh stores)).1 with
    | error err => simp [hcredentials, Except.toOption] at hsome
    | ok credentials => rfl

/-- Over HTTP nothing is sent. -/
theorem agree_http_iff (hhttp : config.transport = .http) :
    Agree S U statusText fromStr catalog config env stores outcome operationId argsJson ↔
      ¬ HasCredentials env stores ∨
        ¬ ValidCall S U fromStr catalog config operationId argsJson := by
  have hsome : (tested U statusText config env stores outcome).decorated.isSome ↔
      HasCredentials env stores := by
    rw [tested_decorated, Option.isSome_map, isSome_credentials_iff]
  constructor
  · intro h
    by_contra hboth
    push Not at hboth
    obtain ⟨hcredentials, hcall⟩ := hboth
    obtain ⟨sent, hsent, hsupplied⟩ := h.supplied (hsome.mpr hcredentials) hcall
    obtain ⟨endpoint, args, sent', hsent', hdecorated⟩ := decorated_of_valid hcall
    obtain rfl := Except.ok.inj (hsent.symm.trans hsent')
    rw [hdecorated, applied_http hhttp] at hsupplied
    simp [Except.toOption] at hsupplied
  · intro h
    constructor
    · intro endpoint args sent request hinput hcalled hsent
      have hheaders := applied_of_sent hinput hcalled hsent
      rw [applied_http hhttp] at hheaders
      simp at hheaders
    · intro hdecorated hcall
      rcases h with hnone | hinvalid
      · exact absurd (hsome.mp hdecorated) hnone
      · exact absurd hcall hinvalid

variable (S U statusText fromStr catalog config env stores outcome operationId argsJson)

/-- **The two commands.** `test-connection` and `call` agree on credentials if and only if the
transport is stdio, or there are no credentials that `test-connection` could attach, or the call
is not valid. -/
theorem commands_agree_iff :
    Agree S U statusText fromStr catalog config env stores outcome operationId argsJson ↔
      config.transport = .stdio ∨ ¬ HasCredentials env stores ∨
        ¬ ValidCall S U fromStr catalog config operationId argsJson := by
  cases htransport : config.transport with
  | stdio => exact ⟨fun _ => .inl rfl, fun _ => agree_of_stdio htransport⟩
  | http =>
      rw [agree_http_iff htransport]
      simp

end

namespace OverHttp

open Paths.Incident Isolation.TwoClients

/-- The environment has a pair. -/
def alice : CallEnv :=
  { env with auth := { env.auth with
      username := some "alice"
      password := some "s3cr3t"
      base64 := fun bytes => String.ofList (Base64.encode bytes) } }

/-- Objects of strings. -/
def fromStr (text : String) : Option Json.Value :=
  (Json.parseObject text.toList).map fun members =>
    .object (members.map fun e => (e.1, .string e.2))

def argsJson : String := String.ofList (Json.writeObject [("id", "42")])

theorem input_alice : Call.input fromStr catalog "getIncident" argsJson =
    .ok (endpoint, args "42") := by
  have hparse : fromStr argsJson = some (args "42") := by
    unfold fromStr argsJson
    rw [String.toList_ofList, Json.parseObject_write]
    rfl
  unfold Call.input
  rw [hparse]
  rfl

/-- With the configuration of the HTTP server and a pair in the environment,
`test-connection` attaches its header and `call` fails for want of credentials. -/
theorem commands_agree_fails :
    (tested (.whatwg host) Nat.repr client.config alice Credentials.empty
      (.response 200 none)).decorated =
        some ((∅ : StringMap).insert "Authorization" "Basic YWxpY2U6czNjcjN0") ∧
    (∃ sent, called schemas (.whatwg host) fromStr (fun _ => catalog) client.config alice
        Credentials.empty "getIncident" argsJson = .ok sent ∧
      sent.executed.result = some (.error (.message AuthManager.noRequestCredentials)) ∧
      sent.executed.dispatched = none) ∧
    ¬ Agree schemas (.whatwg host) Nat.repr fromStr (fun _ => catalog) client.config alice
      Credentials.empty (.response 200 none) "getIncident" argsJson := by
  refine ⟨by rfl, ⟨_, called_eq input_alice, rfl, rfl⟩, ?_⟩
  intro h
  have hcredentials : HasCredentials alice Credentials.empty := .inl ⟨rfl, rfl⟩
  have hcall : ValidCall schemas (.whatwg host) fromStr (fun _ => catalog) client.config
      "getIncident" argsJson :=
    ⟨endpoint, args "42", input_alice, rfl, by decide, rfl⟩
  rcases (agree_http_iff rfl).mp h with hnone | hinvalid
  · exact hnone hcredentials
  · exact hinvalid hcall

end OverHttp

end TopdeskMcp.Theorems.Agreement
