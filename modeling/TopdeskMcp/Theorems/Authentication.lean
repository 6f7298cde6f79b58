import TopdeskMcp.Theorems.Paths

/-!
# Empty credentials

A username or password that is set but empty should not count. `validate_credentials`
looks for empty fields, but accepts anything with an `authorization_header`, and
`authenticate` has added that before the environment's pair is validated; a stored pair
that fails validation is authenticated all the same.

* `BuiltFrom` ties a credentials map to the pair its header was built from;
* `credentials_of_env` and `credentials_of_stored` say what a fresh manager finds in
  each source;
* `never_empty_iff` is when nothing empty is used.
-/

namespace TopdeskMcp.Theorems.Authentication

open TopdeskMcp AuthManager

/-- The credentials that `authenticate` makes of a pair. -/
def built (E : AuthEnv) (username password : String) : StringMap :=
  (((∅ : StringMap).insert "username" username).insert "password" password).insert
    "authorization_header" ("Basic " ++ E.base64 (Utf8.encode (username ++ ":" ++ password)))

/-- A credentials map holds a pair and the header built from it. -/
structure BuiltFrom (E : AuthEnv) (credentials : StringMap) (username password : String) :
    Prop where
  username_eq : credentials.lookup "username" = some username
  password_eq : credentials.lookup "password" = some password
  header_eq : credentials.lookup "authorization_header" =
    some ("Basic " ++ E.base64 (Utf8.encode (username ++ ":" ++ password)))

/-- A manager fresh from `new`, over a credential store. -/
def fresh (stores : Credentials.Stores) : AuthState := { manager := .new .basic, stores }

/-- The stored blob: nothing, or the text of a map. -/
def Holds (E : AuthEnv) (stores : Credentials.Stores) (blob : Option StringMap) : Prop :=
  match blob with
  | none => Credentials.loadCredential E.platform E.loadKeychain E.loadIo stores
      credentialAccount = .ok none
  | some fields => ∃ text, Credentials.loadCredential E.platform E.loadKeychain E.loadIo stores
      credentialAccount = .ok (some text) ∧ E.platform.fromStr text = some fields

/-- The fields a stored blob may have. -/
def AtMostPair (fields : StringMap) : Prop :=
  ∀ key ∈ fields, key = "username" ∨ key = "password"

/-- One of the two variables is set, and empty. -/
def EnvEmpty (E : AuthEnv) : Prop := E.username = some "" ∨ E.password = some ""

/-- Saving the credentials of a pair succeeds. -/
def Saves (E : AuthEnv) (stores : Credentials.Stores) (username password : String) : Prop :=
  (Credentials.saveCredential E.platform E.save.keychain E.save.io E.save.nonce stores
    credentialAccount (E.platform.toStr (built E username password))).1 = .ok ()

/-- Nothing empty is used: credentials that are returned were built from a non-empty pair,
and an empty variable does not hide a non-empty stored pair. -/
structure NeverEmpty (E : AuthEnv) (stores : Credentials.Stores) (blob : Option StringMap) :
    Prop where
  nonempty : ∀ c, (AuthManager.credentials E (fresh stores)).1 = .ok c →
    ∃ username password, BuiltFrom E c username password ∧ username ≠ "" ∧ password ≠ ""
  stored : EnvEmpty E → ∀ fields ∈ blob, ∀ username password,
    fields.lookup "username" = some username → fields.lookup "password" = some password →
    username ≠ "" → password ≠ "" →
    ∃ c, (AuthManager.credentials E (fresh stores)).1 = .ok c ∧ BuiltFrom E c username password

/-- With both variables set, neither is empty. Otherwise a stored pair with an empty member
fails to be saved, and a non-empty one that an empty variable could hide is saved. -/
def Sound (E : AuthEnv) (stores : Credentials.Stores) (blob : Option StringMap) : Prop :=
  match E.username, E.password with
  | some username, some password => username ≠ "" ∧ password ≠ ""
  | _, _ => ∀ fields ∈ blob, ∀ username password,
      fields.lookup "username" = some username → fields.lookup "password" = some password →
      (¬ (username ≠ "" ∧ password ≠ "") → ¬ Saves E stores username password) ∧
        (username ≠ "" ∧ password ≠ "" → EnvEmpty E → Saves E stores username password)

/-! ## What a pair becomes -/

theorem builtFrom_built (E : AuthEnv) (username password : String) :
    BuiltFrom E (built E username password) username password where
  username_eq := by
    rw [built, AList.lookup_insert_ne (by decide), AList.lookup_insert_ne (by decide),
      AList.lookup_insert]
  password_eq := by rw [built, AList.lookup_insert_ne (by decide), AList.lookup_insert]
  header_eq := AList.lookup_insert _

theorem BuiltFrom.inj {E : AuthEnv} {c : StringMap} {u p u' p' : String} (h : BuiltFrom E c u p)
    (h' : BuiltFrom E c u' p') : u = u' ∧ p = p' :=
  ⟨Option.some.inj (h.username_eq.symm.trans h'.username_eq),
    Option.some.inj (h.password_eq.symm.trans h'.password_eq)⟩

theorem authenticate_pair {E : AuthEnv} {fields : StringMap} {username password : String}
    (hu : fields.lookup "username" = some username)
    (hp : fields.lookup "password" = some password) :
    (basicAuthStrategy E.base64).authenticate fields = .ok (built E username password) := by
  simp only [basicAuthStrategy, hu, hp]
  rfl

theorem validate_built (E : AuthEnv) (username password : String) :
    (basicAuthStrategy E.base64).validateCredentials (built E username password) = true := by
  simp [basicAuthStrategy, (builtFrom_built E username password).header_eq]

variable {E : AuthEnv} {stores : Credentials.Stores} {fields : StringMap}

/-- Both variables set: they are used, whatever they hold. -/
theorem fromEnv_pair {username password : String} (hu : E.username = some username)
    (hp : E.password = some password) :
    (AuthManager.new .basic).fromEnv E = some (built E username password) := by
  have hfields : credentialsFromEnv E .basic =
      some (((∅ : StringMap).insert "username" username).insert "password" password) := by
    simp only [credentialsFromEnv, hu, hp]
  have hauth : (basicAuthStrategy E.base64).authenticate
      (((∅ : StringMap).insert "username" username).insert "password" password) =
        .ok (built E username password) := authenticate_pair
    (by rw [AList.lookup_insert_ne (by decide), AList.lookup_insert]) (AList.lookup_insert _)
  simp only [fromEnv, AuthManager.new, hfields, strategy, strategyFor, Option.bind_some, hauth,
    Except.toOption]
  exact Option.filter_eq_some_iff.mpr ⟨rfl, validate_built E username password⟩

theorem credentials_of_env {username password : String} (hu : E.username = some username)
    (hp : E.password = some password) :
    (AuthManager.credentials E (fresh stores)).1 = .ok (built E username password) := by
  simp only [AuthManager.credentials, fresh, fromEnv_pair hu hp]
  rfl

/-- One variable unset: the environment brings nothing. -/
theorem fromEnv_eq_none (h : E.username = none ∨ E.password = none) :
    (AuthManager.new .basic).fromEnv E = none := by
  have hnone : credentialsFromEnv E .basic = none := by
    unfold credentialsFromEnv
    rcases h with h | h <;> rw [h]
    cases E.username <;> rfl
  simp only [fromEnv, AuthManager.new, hnone, Option.bind_none, Option.filter_none]

/-- Credentials are returned once they are saved. -/
theorem keep_eq_ok_iff {username password : String} {c : StringMap} :
    (keep E (fresh stores) (.ok (built E username password))).1 = .ok c ↔
      Saves E stores username password ∧ c = built E username password := by
  unfold keep saveActive Saves
  dsimp only [fresh, setCredentials]
  cases (Credentials.saveCredential E.platform E.save.keychain E.save.io E.save.nonce stores
    credentialAccount (E.platform.toStr (built E username password))).1 with
  | ok value =>
      simp only [Except.ok.injEq, true_and]
      exact eq_comm
  | err error => simp
  | panicked => simp

theorem AtMostPair.lookup_eq_none (h : AtMostPair fields) (key : String) (hu : key ≠ "username")
    (hp : key ≠ "password") : fields.lookup key = none := by
  refine AList.lookup_eq_none.mpr fun hkey => ?_
  rcases h key hkey with rfl | rfl
  · exact hu rfl
  · exact hp rfl

/-- A stored pair is authenticated, validated or not. -/
theorem fromStored_pair (h : AtMostPair fields) {username password : String}
    (hu : fields.lookup "username" = some username)
    (hp : fields.lookup "password" = some password) :
    fromStored E (fresh stores) fields = keep E (fresh stores) (.ok (built E username password)) := by
  have hauth := authenticate_pair (E := E) hu hp
  have hheader := h.lookup_eq_none "authorization_header" (by decide) (by decide)
  have hkey := h.lookup_eq_none "api_key" (by decide) (by decide)
  have hname := h.lookup_eq_none "request_header_name" (by decide) (by decide)
  have htoken := h.lookup_eq_none "access_token" (by decide) (by decide)
  have hrefresh := h.lookup_eq_none "refresh_token" (by decide) (by decide)
  have hraw : (AuthManager.new .basic).normalizeCredentials E fields =
      .ok (built E username password) := by
    simp only [normalizeCredentials, hheader, hkey, hname, htoken, Option.isSome_none,
      Bool.false_eq_true, or_false, if_false, strategy, strategyFor, hauth]
  have hdone : (AuthManager.new .basic).normalizeCredentials E (built E username password) =
      .ok (built E username password) := by
    simp [normalizeCredentials, (builtFrom_built E username password).header_eq]
  unfold fromStored
  dsimp only [fresh]
  split
  · rw [hraw]
  · simp only [hrefresh, Option.isSome_none, Bool.false_eq_true, if_false, strategy,
      AuthManager.new, strategyFor, hauth]
    exact congrArg (keep E (fresh stores)) hdone

/-- Without a whole pair there is nothing to authenticate with. -/
theorem fromStored_missing (h : AtMostPair fields)
    (hmissing : fields.lookup "username" = none ∨ fields.lookup "password" = none) :
    (fromStored E (fresh stores) fields).1 = .error (noActiveCredentials (.new .basic)) := by
  have hheader := h.lookup_eq_none "authorization_header" (by decide) (by decide)
  have hrefresh := h.lookup_eq_none "refresh_token" (by decide) (by decide)
  have hvalid : (basicAuthStrategy E.base64).validateCredentials fields = false := by
    rcases hmissing with h | h <;> simp [basicAuthStrategy, hheader, nonEmptyField, h]
  have hauth : (basicAuthStrategy E.base64).authenticate fields =
      .error (.auth (.missingCredentials "username, password")) := by
    unfold basicAuthStrategy
    dsimp only
    rcases hmissing with h | h
    · rw [h]
    · rw [h]
      cases fields.lookup "username" <;> rfl
  simp only [fromStored, fresh, strategy, AuthManager.new, strategyFor, hvalid, hrefresh, hauth,
    Bool.false_eq_true, if_false, Option.isSome_none]

/-- What a fresh manager finds when the environment brings nothing. -/
theorem credentials_of_stored (henv : E.username = none ∨ E.password = none)
    {blob : Option StringMap} (hblob : Holds E stores blob)
    (hfields : ∀ fields ∈ blob, AtMostPair fields) (c : StringMap) :
    (AuthManager.credentials E (fresh stores)).1 = .ok c ↔
      ∃ fields ∈ blob, ∃ username password, fields.lookup "username" = some username ∧
        fields.lookup "password" = some password ∧ Saves E stores username password ∧
        c = built E username password := by
  have hcached : (AuthManager.new .basic).cached E = none := rfl
  simp only [AuthManager.credentials, fresh, hcached, fromEnv_eq_none henv]
  cases blob with
  | none =>
      have hload : Credentials.loadCredential E.platform E.loadKeychain E.loadIo stores
          credentialAccount = .ok none := hblob
      simp [hload]
  | some fields =>
      obtain ⟨text, hload, hparse⟩ := hblob
      have hpair := hfields fields rfl
      simp only [hload, hparse, Option.mem_some, exists_eq_left']
      change (fromStored E (fresh stores) fields).1 = .ok c ↔ _
      -- the blob has both fields, or it has no credentials
      cases hu : fields.lookup "username" with
      | none => simp [fromStored_missing hpair (.inl hu)]
      | some username =>
          cases hp : fields.lookup "password" with
          | none => simp [fromStored_missing hpair (.inr hp)]
          | some password =>
              rw [fromStored_pair hpair hu hp, keep_eq_ok_iff]
              simp

/-- **Nothing empty is used** if and only if: both variables are set and non-empty; or not
both are set, and a stored pair with an empty member cannot be saved, and a non-empty one
beside an empty variable can. -/
theorem never_empty_iff (E : AuthEnv) (stores : Credentials.Stores) (blob : Option StringMap)
    (hblob : Holds E stores blob) (hfields : ∀ fields ∈ blob, AtMostPair fields) :
    NeverEmpty E stores blob ↔ Sound E stores blob := by
  by_cases henv : E.username = none ∨ E.password = none
  · -- the store decides
    have hfound := credentials_of_stored henv hblob hfields
    have hsound : Sound E stores blob ↔ ∀ fields ∈ blob, ∀ username password,
        fields.lookup "username" = some username → fields.lookup "password" = some password →
        (¬ (username ≠ "" ∧ password ≠ "") → ¬ Saves E stores username password) ∧
          (username ≠ "" ∧ password ≠ "" → EnvEmpty E → Saves E stores username password) := by
      unfold Sound
      rcases henv with h | h
      · rw [h]
      · rw [h]
        cases E.username <;> rfl
    rw [hsound]
    constructor
    · intro h fields hmem u p hu hp
      refine ⟨fun hempty hsaves => ?_, fun hne hvar => ?_⟩
      · obtain ⟨u', p', hbuilt, hne⟩ := h.nonempty _
          ((hfound _).mpr ⟨fields, hmem, u, p, hu, hp, hsaves, rfl⟩)
        obtain ⟨rfl, rfl⟩ := hbuilt.inj (builtFrom_built E u p)
        exact hempty hne
      · obtain ⟨c, hc, hbuilt⟩ := h.stored hvar fields hmem u p hu hp hne.1 hne.2
        obtain ⟨fields', hmem', u', p', hu', hp', hsaves, rfl⟩ := (hfound c).mp hc
        obtain ⟨rfl, rfl⟩ := hbuilt.inj (builtFrom_built E u' p')
        exact hsaves
    · intro h
      refine ⟨fun c hc => ?_, fun hvar fields hmem u p hu hp hune hpne => ?_⟩
      · obtain ⟨fields, hmem, u, p, hu, hp, hsaves, rfl⟩ := (hfound c).mp hc
        refine ⟨u, p, builtFrom_built E u p, ?_⟩
        by_contra hempty
        exact (h fields hmem u p hu hp).1 hempty hsaves
      · have hsaves := (h fields hmem u p hu hp).2 ⟨hune, hpne⟩ hvar
        exact ⟨_, (hfound _).mpr ⟨fields, hmem, u, p, hu, hp, hsaves, rfl⟩, builtFrom_built E u p⟩
  · -- the environment's pair is used
    push Not at henv
    obtain ⟨u, hu⟩ := Option.ne_none_iff_exists'.mp henv.1
    obtain ⟨p, hp⟩ := Option.ne_none_iff_exists'.mp henv.2
    have hfound : (AuthManager.credentials E (fresh stores)).1 = .ok (built E u p) :=
      credentials_of_env hu hp
    simp only [Sound, hu, hp]
    constructor
    · intro h
      obtain ⟨u', p', hbuilt, hne⟩ := h.nonempty _ hfound
      obtain ⟨rfl, rfl⟩ := hbuilt.inj (builtFrom_built E u p)
      exact hne
    · intro hne
      refine ⟨fun c hc => ?_, fun hvar => ?_⟩
      · obtain rfl := Except.ok.inj (hfound.symm.trans hc)
        exact ⟨u, p, builtFrom_built E u p, hne⟩
      · simp [EnvEmpty, hu, hp, hne.1, hne.2] at hvar

namespace Alice

/-- A stored pair, as the setup wizard leaves it. -/
def pair : StringMap := ((∅ : StringMap).insert "username" "alice").insert "password" "s3cr3t"

def saved : Credentials.Stores where
  keychain := Function.update (fun _ => none) credentialAccount
    (some (Credentials.plain.toStr pair))
  file := none

/-- Base64 of the two pairs that occur here. -/
def base64 (bytes : Bytes) : String :=
  if bytes = Utf8.encode ":" then "Og==" else "YWxpY2U6czNjcjN0"

/-- The keychain works, and both variables are as given. -/
def env (username password : Option String) : AuthEnv :=
  { Paths.Incident.env.auth with username, password, base64, loadKeychain := .available }

theorem pair_lookups : pair.lookup "username" = some "alice" ∧
    pair.lookup "password" = some "s3cr3t" ∧ AtMostPair pair := by
  refine ⟨rfl, rfl, fun key hkey => ?_⟩
  simp only [pair, AList.mem_insert, AList.notMem_empty, or_false] at hkey
  exact hkey.symm

theorem holds_pair (username password : Option String) : ∃ fields,
    Holds (env username password) saved (some fields) ∧ AtMostPair fields ∧
      fields.lookup "username" = some "alice" ∧ fields.lookup "password" = some "s3cr3t" := by
  obtain ⟨hu, hp, hpair⟩ := pair_lookups
  obtain ⟨fields, hparse, hsame⟩ := Credentials.plain_lawful.fromStr_toStr pair
  refine ⟨fields, ⟨_, rfl, hparse⟩, fun key hkey => hpair key ?_, (hsame _).trans hu,
    (hsame _).trans hp⟩
  rw [← AList.lookup_isSome, ← hsame, AList.lookup_isSome]
  exact hkey

/-- The empty variables of the example file hide a stored pair and are used themselves. -/
theorem never_empty_fails : ∃ fields, Holds (env (some "") (some "")) saved (some fields) ∧
    AtMostPair fields ∧
    (AuthManager.credentials (env (some "") (some "")) (fresh saved)).1 =
      .ok (built (env (some "") (some "")) "" "") ∧
    (built (env (some "") (some "")) "" "").lookup "authorization_header" = some "Basic Og==" ∧
    ¬ NeverEmpty (env (some "") (some "")) saved (some fields) := by
  obtain ⟨fields, hholds, hpair, -, -⟩ := holds_pair (some "") (some "")
  have hfound : (AuthManager.credentials (env (some "") (some "")) (fresh saved)).1 =
      .ok (built (env (some "") (some "")) "" "") := credentials_of_env rfl rfl
  refine ⟨fields, hholds, hpair, hfound, rfl, fun h => ?_⟩
  obtain ⟨u, p, hbuilt, hne, -⟩ := h.nonempty _ hfound
  exact hne (hbuilt.inj (builtFrom_built _ "" "")).1

/-- Without variables the stored pair is used. -/
theorem never_empty_iff_stored : ∃ fields, Holds (env none none) saved (some fields) ∧
    NeverEmpty (env none none) saved (some fields) := by
  obtain ⟨fields, hholds, hpair, hu, hp⟩ := holds_pair none none
  refine ⟨fields, hholds, (never_empty_iff (env none none) saved (some fields) hholds
    (by rintro _ ⟨⟩; exact hpair)).mpr ?_⟩
  rintro _ ⟨⟩ u p hu' hp'
  obtain rfl := Option.some.inj (hu.symm.trans hu')
  obtain rfl := Option.some.inj (hp.symm.trans hp')
  exact ⟨fun h => absurd ⟨by decide, by decide⟩ h, fun _ h => by simp [EnvEmpty, env] at h⟩

end Alice

end TopdeskMcp.Theorems.Authentication
