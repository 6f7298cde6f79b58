import TopdeskMcp.Theorems.Paths

/-!
# The credential header of a call

Header arguments and the auth manager write into one map whose keys are compared as
they are spelled, and every entry of it becomes a header line, whose name is compared
without case. The manager comes last, so an argument under its own spelling is
overwritten; one under another spelling of the name is a second line beside it
(`authorization_once_iff`).
-/

namespace TopdeskMcp.Theorems.Headers

open TopdeskMcp

/-- Two header names are the same on the wire. -/
def SameHeader (name name' : String) : Prop := lowerCase name = lowerCase name'

instance (name name' : String) : Decidable (SameHeader name name') := by
  unfold SameHeader; infer_instance

/-- The credentials that `apply_auth_headers` decorates with. -/
def usedCredentials (E : AuthEnv) (s : AuthState) :
    Transport → Option RequestCredentials → Except CallError StringMap
  | .http, some overrideCredentials => .ok overrideCredentials.intoCredentialsMap
  | .http, none => .error (.message AuthManager.noRequestCredentials)
  | .stdio, _ => (AuthManager.credentials E s).1

/-- The header that credentials bring, if they bring one. -/
def credentialHeader (credentials : StringMap) : Option (String × String) :=
  match credentials.lookup "request_header_name", credentials.lookup "request_header_value" with
  | some name, some value => some (name, value)
  | _, _ =>
      match credentials.lookup "authorization_header" with
      | some header => some ("Authorization", header)
      | none => (credentials.lookup "api_key").map fun apiKey =>
          ((credentials.lookup "request_header_name").getD "X-Api-Key", apiKey)

/-- `apply_auth_headers` succeeds and sets a header. -/
def Sets (E : AuthEnv) (s : AuthState) (transport : Transport)
    (requestOverride : Option RequestCredentials) (name value : String) : Prop :=
  ∃ credentials, usedCredentials E s transport requestOverride = .ok credentials ∧
    credentialHeader credentials = some (name, value)

/-- Among the header lines, exactly one is for Authorization, and it has this value. -/
def AuthorizationOnce (headers : StringMap) (value : String) : Prop :=
  ∃ name, headers.entries.filter (fun e => SameHeader e.1 "Authorization") = [⟨name, value⟩]

/-! ## The auth manager's part -/

theorem applyAuthHeaders_eq (E : AuthEnv) (s : AuthState) (headers : StringMap)
    (transport : Transport) (requestOverride : Option RequestCredentials) :
    (AuthManager.applyAuthHeaders E s headers transport requestOverride).1 =
      (usedCredentials E s transport requestOverride).map (AuthManager.decorate headers) := by
  cases transport <;> cases requestOverride <;> rfl

theorem decorate_eq_insert {headers credentials : StringMap} {name value : String}
    (h : credentialHeader credentials = some (name, value)) :
    AuthManager.decorate headers credentials = headers.insert name value := by
  unfold credentialHeader at h
  unfold AuthManager.decorate
  generalize credentials.lookup "request_header_name" = headerName at h ⊢
  generalize credentials.lookup "request_header_value" = headerValue at h ⊢
  generalize credentials.lookup "authorization_header" = header at h ⊢
  generalize credentials.lookup "api_key" = apiKey at h ⊢
  cases headerName <;> cases headerValue <;> cases header <;> cases apiKey <;> simp_all

theorem headers_of_sets {E : AuthEnv} {s : AuthState} {headers headers' : StringMap}
    {transport : Transport} {requestOverride : Option RequestCredentials} {name value : String}
    (h : (AuthManager.applyAuthHeaders E s headers transport requestOverride).1 = .ok headers')
    (hsets : Sets E s transport requestOverride name value) :
    headers' = headers.insert name value := by
  obtain ⟨credentials, hused, hheader⟩ := hsets
  rw [applyAuthHeaders_eq, hused] at h
  rw [← decorate_eq_insert hheader]
  exact (Except.ok.inj h).symm

/-! ## The arguments' part -/

/-- The headers before the auth manager are the client's own two and the arguments. -/
theorem mem_callHeaders {endpoint : EndpointRecord} {args : Args} {name : String} :
    name ∈ ApiClient.callHeaders endpoint args ↔
      name = "Content-Type" ∨ name = "User-Agent" ∨
        ∃ value, (name, value) ∈ pickByLocation endpoint args "header" := by
  unfold ApiClient.callHeaders
  rw [StringMap.mem_foldl_insert, AList.mem_insert, AList.mem_insert]
  simp only [AList.notMem_empty, or_false]
  constructor
  · rintro ((rfl | rfl) | hpicked)
    · exact .inr (.inl rfl)
    · exact .inl rfl
    · exact .inr (.inr hpicked)
  · rintro (rfl | rfl | hpicked)
    · exact .inl (.inr rfl)
    · exact .inl (.inl rfl)
    · exact .inr hpicked

/-- An inserted entry is the only one of its kind unless another key is of the kind. -/
theorem authorizationOnce_insert_iff {headers : StringMap} {name value : String}
    (hname : SameHeader name "Authorization") :
    AuthorizationOnce (headers.insert name value) value ↔
      ∀ key ∈ headers, SameHeader key "Authorization" → key = name := by
  have hentries : (headers.insert name value).entries = ⟨name, value⟩ ::
      (headers.entries.kerase name) := rfl
  unfold AuthorizationOnce
  rw [hentries, List.filter_cons_of_pos (by simpa using hname)]
  constructor
  · rintro ⟨_, honce⟩ key hkey hsame
    obtain ⟨-, hnone⟩ := List.cons.inj honce
    by_contra hne
    -- another spelling would be a second line
    have hkept : key ∈ (headers.entries.kerase name).keys :=
      (List.mem_keys_kerase_of_ne hne).mpr hkey
    obtain ⟨text, hmem⟩ := List.exists_of_mem_keys hkept
    exact List.filter_eq_nil_iff.mp hnone _ hmem (by simpa using hsame)
  · intro h
    refine ⟨name, ?_⟩
    rw [List.filter_eq_nil_iff.mpr]
    rintro ⟨key, text⟩ hmem hsame
    have hkey := List.mem_keys_of_mem hmem
    have heq := h key (List.mem_keys_of_mem_keys_kerase hkey) (by simpa using hsame)
    subst heq
    exact List.notMem_keys_kerase key headers.nodupKeys hkey

/-! ## Calls -/

/-- **One credential header.** Of a call that reaches `dispatch` and for which the auth
manager sets an Authorization header, the header lines hold Authorization exactly once and
with the manager's value if and only if no header argument is given whose name is another
spelling of it. -/
theorem authorization_once_iff (U : UrlCrate) (client : ApiClient) (endpoint : EndpointRecord)
    (args : Json.Value) (requestOverride : Option RequestCredentials) (env : CallEnv)
    (auth : AuthState) (request : Request) (name value : String)
    (hsent : (client.execute U endpoint args requestOverride env auth).1.dispatched = some request)
    (hsets : Sets env.auth auth client.config.transport requestOverride name value)
    (hname : SameHeader name "Authorization") :
    AuthorizationOnce request.headers value ↔
      ∀ header ∈ pickByLocation endpoint (argsMap args) "header",
        SameHeader header.1 "Authorization" → header.1 = name := by
  obtain ⟨url, headers, -, hheaders, rfl⟩ :=
    ApiClient.prepare_eq_ok (ApiClient.execute_dispatched hsent)
  rw [headers_of_sets hheaders hsets, authorizationOnce_insert_iff hname]
  constructor
  · rintro h ⟨key, text⟩ hpicked hsame
    exact h key (mem_callHeaders.mpr (.inr (.inr ⟨text, hpicked⟩))) hsame
  · intro h key hkey hsame
    rcases mem_callHeaders.mp hkey with rfl | rfl | ⟨text, hpicked⟩
    · exact absurd hsame (by decide)
    · exact absurd hsame (by decide)
    · exact h (key, text) hpicked hsame

namespace Incident

open Paths.Incident

/-- An endpoint that declares one header parameter. -/
def withHeader (name : String) : EndpointRecord where
  path := "/incidents"
  method := "GET"
  inputSchema := .object [("parameters", .array [.object
    [("in", .string "header"), ("name", .string name)]])]

def sent (name : String) (args : Json.Value) : Executed :=
  (client.execute (.whatwg host) (withHeader name) args (some basicHeader) env auth).1

theorem sets_basic : Sets env.auth auth client.config.transport (some basicHeader) "Authorization"
    "Basic YTpi" := ⟨_, rfl, rfl⟩

/-- A header parameter spelled in lower case brings a second credential. -/
theorem authorization_twice :
    Sets env.auth auth client.config.transport (some basicHeader) "Authorization" "Basic YTpi" ∧
    ∃ request, (sent "authorization" (.object [("authorization", .string "Bearer x")])).dispatched =
        some request ∧
      (request.headers.entries.filter fun e => SameHeader e.1 "Authorization") =
        [⟨"Authorization", "Basic YTpi"⟩, ⟨"authorization", "Bearer x"⟩] ∧
      ¬ AuthorizationOnce request.headers "Basic YTpi" := by
  obtain ⟨request, hsent, hlines⟩ : ∃ request,
      (sent "authorization" (.object [("authorization", .string "Bearer x")])).dispatched =
        some request ∧
      (request.headers.entries.filter fun e => SameHeader e.1 "Authorization") =
        [⟨"Authorization", "Basic YTpi"⟩, ⟨"authorization", "Bearer x"⟩] := ⟨_, rfl, rfl⟩
  refine ⟨sets_basic, request, hsent, hlines, ?_⟩
  rintro ⟨name, honce⟩
  rw [hlines] at honce
  simp at honce

/-- A header parameter spelled as the manager spells it is overwritten. -/
theorem authorization_once_iff_overwritten : ∃ request,
    (sent "Authorization" (.object [("Authorization", .string "Bearer x")])).dispatched =
      some request ∧ AuthorizationOnce request.headers "Basic YTpi" := by
  obtain ⟨request, hsent⟩ : ∃ request,
      (sent "Authorization" (.object [("Authorization", .string "Bearer x")])).dispatched =
        some request := ⟨_, rfl⟩
  refine ⟨request, hsent, (authorization_once_iff (.whatwg host) client _ _ _ env auth request _ _
    hsent sets_basic (by decide)).mpr ?_⟩
  intro header hpicked _
  have hone : pickByLocation (withHeader "Authorization")
      (argsMap (.object [("Authorization", .string "Bearer x")])) "header" =
        [("Authorization", "Bearer x")] := rfl
  rw [hone] at hpicked
  rw [List.mem_singleton.mp hpicked]

end Incident

end TopdeskMcp.Theorems.Headers
