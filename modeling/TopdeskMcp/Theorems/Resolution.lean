import TopdeskMcp.Cli.SetupWizard
import TopdeskMcp.Lib.Base64
import TopdeskMcp.Theorems.Authentication
import TopdeskMcp.Theorems.EncryptedFile

/-!
# Resolving credentials

`credentials` goes from source to source: the cache, the environment, the store. Whatever a
stored blob looks like, `resolve` says what it becomes, and that is `Settled`: it validates
and needs no more normalising. `credentials_cases` is all that a call can do.

* Credentials are cached before they are saved, so a call that fails to save them leaves them
  in the cache (`failure_keeps_cache_iff`);
* what is settled is resolved to itself, so a second call, and the next process, find what
  the first one returned (`resolution_stable`);
* the header of a pair identifies it as long as the username has no colon
  (`basic_header_identifies_iff`).
-/

namespace TopdeskMcp.Theorems.Resolution

open TopdeskMcp AuthManager Authentication

/-! ## What a stored blob becomes -/

/-- The fields that `validate_credentials` looks for. -/
def Valid (c : StringMap) : Prop :=
  (c.lookup "authorization_header").isSome ∨
    (∃ u, c.lookup "username" = some u ∧ u ≠ "") ∧ ∃ p, c.lookup "password" = some p ∧ p ≠ ""

/-- Normalising leaves these alone. -/
def Ready (c : StringMap) : Prop :=
  (c.lookup "authorization_header").isSome ∨ (c.lookup "api_key").isSome ∨
    (c.lookup "request_header_name").isSome

structure Settled (c : StringMap) : Prop where
  valid : Valid c
  ready : Ready c

/-- What a stored blob becomes, when it can be used. -/
def resolve (E : AuthEnv) (m : AuthManager) (parsed : StringMap) : Option StringMap :=
  if (m.strategy E).validateCredentials parsed then (m.normalizeCredentials E parsed).toOption
  else if (parsed.lookup "refresh_token").isSome then none
  else (((m.strategy E).authenticate parsed).bind (m.normalizeCredentials E)).toOption

variable {E E' : AuthEnv} {s s' : AuthState} {m m' : AuthManager} {c n parsed : StringMap}

theorem strategy_eq (E : AuthEnv) (m : AuthManager) : m.strategy E = basicAuthStrategy E.base64 := by
  unfold strategy strategyFor
  cases m.authMethod
  rfl

theorem nonEmptyField_iff (field : String) :
    nonEmptyField c field = true ↔ ∃ value, c.lookup field = some value ∧ value ≠ "" := by
  unfold nonEmptyField
  cases c.lookup field with
  | none => simp
  | some value => simp

theorem validate_iff (E : AuthEnv) (m : AuthManager) :
    (m.strategy E).validateCredentials c = true ↔ Valid c := by
  rw [strategy_eq]
  show ((c.lookup "authorization_header").isSome ||
    (nonEmptyField c "username" && nonEmptyField c "password")) = true ↔ _
  rw [Bool.or_eq_true, Bool.and_eq_true, nonEmptyField_iff, nonEmptyField_iff]
  exact Iff.rfl

theorem normalize_of_ready (h : Ready c) : m.normalizeCredentials E c = .ok c :=
  if_pos h

theorem settled_of_header (h : (c.lookup "authorization_header").isSome) : Settled c :=
  ⟨.inl h, .inl h⟩

theorem settled_built (E : AuthEnv) (username password : String) :
    Settled (built E username password) :=
  settled_of_header (by rw [(builtFrom_built E username password).header_eq]; rfl)

/-- Authentication either fails or builds settled credentials. -/
theorem authenticate_settled (h : (m.strategy E).authenticate parsed = .ok c) : Settled c := by
  rw [strategy_eq] at h
  cases hu : parsed.lookup "username" with
  | none =>
      simp only [basicAuthStrategy, hu] at h
      simp at h
  | some u =>
      cases hp : parsed.lookup "password" with
      | none =>
          simp only [basicAuthStrategy, hu, hp] at h
          simp at h
      | some p =>
          rw [authenticate_pair hu hp] at h
          obtain rfl := Except.ok.inj h
          exact settled_built E u p

/-- Valid credentials can be normalised. -/
theorem normalize_of_valid (h : Valid c) :
    ∃ n, m.normalizeCredentials E c = .ok n ∧ Settled n := by
  by_cases hready : Ready c
  · exact ⟨c, normalize_of_ready hready, h, hready⟩
  · unfold normalizeCredentials
    have hnone : ¬ ((c.lookup "authorization_header").isSome ∨ (c.lookup "api_key").isSome ∨
        (c.lookup "request_header_name").isSome) := hready
    rw [if_neg hnone]
    cases c.lookup "access_token" with
    | some accessToken =>
        exact ⟨_, rfl, settled_of_header (by rw [AList.lookup_insert]; rfl)⟩
    | none =>
        -- no header: the pair is there
        obtain ⟨⟨u, hu, -⟩, p, hp, -⟩ := h.resolve_left fun hheader => hready (.inl hheader)
        refine ⟨built E u p, ?_, settled_built E u p⟩
        show (m.strategy E).authenticate c = _
        rw [strategy_eq]
        exact authenticate_pair hu hp

theorem resolve_settled (h : resolve E m parsed = some n) : Settled n := by
  unfold resolve at h
  split at h
  · rename_i hvalid
    obtain ⟨n', hn', hsettled⟩ := normalize_of_valid (m := m) ((validate_iff E m).mp hvalid)
    rw [hn'] at h
    obtain rfl := Option.some.inj h
    exact hsettled
  · split at h
    · simp at h
    · cases hauth : (m.strategy E).authenticate parsed with
      | error err =>
          rw [hauth] at h
          simp [Except.bind, Except.toOption] at h
      | ok exchanged =>
          have hsettled := authenticate_settled hauth
          rw [hauth, Except.bind, normalize_of_ready hsettled.ready] at h
          obtain rfl := Option.some.inj h
          exact hsettled

/-- Settled credentials resolve to themselves. -/
theorem resolve_of_settled (h : Settled c) : resolve E m c = some c := by
  rw [resolve, if_pos ((validate_iff E m).mpr h.valid), normalize_of_ready h.ready]
  rfl

theorem fromStored_of_resolve (h : resolve E s.manager parsed = some n) :
    fromStored E s parsed = keep E s (.ok n) := by
  unfold resolve at h
  unfold fromStored
  dsimp only
  split at h
  · rename_i hvalid
    rw [if_pos hvalid]
    cases hnorm : s.manager.normalizeCredentials E parsed with
    | error err => simp [hnorm, Except.toOption] at h
    | ok normalized =>
        rw [hnorm] at h
        rw [Option.some.inj h]
  · rename_i hvalid
    rw [if_neg hvalid]
    split at h
    · simp at h
    · rename_i hrefresh
      rw [if_neg hrefresh]
      cases hauth : (s.manager.strategy E).authenticate parsed with
      | error err => simp [hauth, Except.bind, Except.toOption] at h
      | ok exchanged =>
          have hnorm := normalize_of_ready (E := E) (m := s.manager)
            (authenticate_settled hauth).ready
          rw [hauth, Except.bind, hnorm] at h
          obtain rfl := Option.some.inj h
          show keep E s (s.manager.normalizeCredentials E exchanged) = _
          rw [hnorm]

theorem fromStored_of_none (h : resolve E s.manager parsed = none) :
    fromStored E s parsed = (.error s.manager.noActiveCredentials, s) := by
  unfold resolve at h
  unfold fromStored
  dsimp only
  split at h
  · rename_i hvalid
    obtain ⟨n, hn, -⟩ := normalize_of_valid (E := E) (m := s.manager)
      ((validate_iff E s.manager).mp hvalid)
    simp [hn, Except.toOption] at h
  · rename_i hvalid
    rw [if_neg hvalid]
    split at h
    · rename_i hrefresh
      rw [if_pos hrefresh, strategy_eq]
      rfl
    · rename_i hrefresh
      rw [if_neg hrefresh]
      cases hauth : (s.manager.strategy E).authenticate parsed with
      | error err => rfl
      | ok exchanged =>
          have hnorm := normalize_of_ready (E := E) (m := s.manager)
            (authenticate_settled hauth).ready
          simp [hauth, hnorm, Except.bind, Except.toOption] at h

/-! ## All that a call can do -/

/-- What the stored blob becomes, if there is one that can be read and used. -/
def found (E : AuthEnv) (s : AuthState) : Option StringMap :=
  ((Credentials.loadCredential E.platform E.loadKeychain E.loadIo s.stores
    credentialAccount).toOption.join.bind E.platform.fromStr).bind (resolve E s.manager)

/-- Neither the cache nor the environment has credentials. -/
def Unresolved (E : AuthEnv) (s : AuthState) : Prop :=
  s.manager.cached E = none ∧ s.manager.fromEnv E = none

/-- Saving the credentials succeeds. -/
def Kept (E : AuthEnv) (stores : Credentials.Stores) (c : StringMap) : Prop :=
  (Credentials.saveCredential E.platform E.save.keychain E.save.io E.save.nonce stores
    credentialAccount (E.platform.toStr c)).1 = .ok ()

theorem cached_eq_some (E : AuthEnv) : m.cached E = some c ↔ m.cachedCredentials = some c ∧ Valid c := by
  unfold cached
  rw [Option.filter_eq_some_iff, validate_iff]

theorem credentials_of_cached (h : s.manager.cached E = some c) :
    ∃ n, s.manager.normalizeCredentials E c = .ok n ∧ AuthManager.credentials E s = (.ok n, s) := by
  obtain ⟨n, hn, -⟩ := normalize_of_valid (E := E) (m := s.manager) ((cached_eq_some E).mp h).2
  refine ⟨n, hn, ?_⟩
  simp only [AuthManager.credentials, h, hn]

theorem credentials_of_env (hcached : s.manager.cached E = none)
    (henv : s.manager.fromEnv E = some c) :
    AuthManager.credentials E s = (.ok c, { s with manager := s.manager.setCredentials c }) := by
  simp only [AuthManager.credentials, hcached, henv]

theorem credentials_of_found (h : Unresolved E s) (hfound : found E s = some c) :
    AuthManager.credentials E s =
      saveActive E { s with manager := s.manager.setCredentials c } c := by
  obtain ⟨parsed, hparsed, hresolve⟩ := Option.bind_eq_some_iff.mp hfound
  obtain ⟨text, htext, hparse⟩ := Option.bind_eq_some_iff.mp hparsed
  simp only [AuthManager.credentials, h.1, h.2]
  cases hload : Credentials.loadCredential E.platform E.loadKeychain E.loadIo s.stores
      credentialAccount with
  | err error => simp [hload, Credentials.Outcome.toOption] at htext
  | panicked => simp [hload, Credentials.Outcome.toOption] at htext
  | ok stored =>
      obtain rfl : stored = some text := by simpa [hload, Credentials.Outcome.toOption] using htext
      simp only [hparse]
      exact fromStored_of_resolve hresolve

/-- Where nothing usable is found, nothing is done. -/
theorem credentials_of_not_found (h : Unresolved E s) (hfound : found E s = none) :
    ∃ err, AuthManager.credentials E s = (.error err, s) := by
  unfold found at hfound
  simp only [AuthManager.credentials, h.1, h.2]
  cases hload : Credentials.loadCredential E.platform E.loadKeychain E.loadIo s.stores
      credentialAccount with
  | err error => exact ⟨_, rfl⟩
  | panicked => exact ⟨_, rfl⟩
  | ok stored =>
      cases stored with
      | none => exact ⟨_, rfl⟩
      | some text =>
          cases hparse : E.platform.fromStr text with
          | none => exact ⟨.json, by simp only [hparse]⟩
          | some parsed =>
              have hresolve : resolve E s.manager parsed = none := by
                simpa [hload, Credentials.Outcome.toOption, hparse] using hfound
              exact ⟨_, by simp only [hparse]; exact fromStored_of_none hresolve⟩

theorem credentials_cases (E : AuthEnv) (s : AuthState) :
    (∃ c n, s.manager.cached E = some c ∧ s.manager.normalizeCredentials E c = .ok n ∧
      AuthManager.credentials E s = (.ok n, s)) ∨
    (∃ c, s.manager.cached E = none ∧ s.manager.fromEnv E = some c ∧
      AuthManager.credentials E s = (.ok c, { s with manager := s.manager.setCredentials c })) ∨
    (∃ c, Unresolved E s ∧ found E s = some c ∧
      AuthManager.credentials E s =
        saveActive E { s with manager := s.manager.setCredentials c } c) ∨
    (∃ err, Unresolved E s ∧ found E s = none ∧
      AuthManager.credentials E s = (.error err, s)) := by
  cases hcached : s.manager.cached E with
  | some c =>
      obtain ⟨n, hn, heq⟩ := credentials_of_cached hcached
      exact .inl ⟨c, n, rfl, hn, heq⟩
  | none =>
      cases henv : s.manager.fromEnv E with
      | some c => exact .inr (.inl ⟨c, rfl, rfl, credentials_of_env hcached henv⟩)
      | none =>
          have hnone : Unresolved E s := ⟨hcached, henv⟩
          cases hfound : found E s with
          | some c => exact .inr (.inr (.inl ⟨c, hnone, rfl, credentials_of_found hnone hfound⟩))
          | none =>
              obtain ⟨err, heq⟩ := credentials_of_not_found hnone hfound
              exact .inr (.inr (.inr ⟨err, hnone, rfl, heq⟩))

theorem login_of_authenticate {config : StringMap}
    (h : (s.manager.strategy E).authenticate config = .ok c) :
    login E s config = saveActive E { s with manager := s.manager.setCredentials c } c := by
  unfold login
  rw [h]
  rfl

/-- A save changes the store, and its result is the call's. -/
theorem saveActive_eq (E : AuthEnv) (s : AuthState) (c : StringMap) :
    (saveActive E s c).2.manager = s.manager ∧
      ((Kept E s.stores c ∧ (saveActive E s c).1 = .ok c) ∨
        (¬ Kept E s.stores c ∧ ∃ err, (saveActive E s c).1 = .error err)) := by
  unfold saveActive Kept
  dsimp only
  cases (Credentials.saveCredential E.platform E.save.keychain E.save.io E.save.nonce s.stores
      credentialAccount (E.platform.toStr c)).1 with
  | ok _ => exact ⟨rfl, .inl ⟨rfl, rfl⟩⟩
  | err error => exact ⟨rfl, .inr ⟨by simp, _, rfl⟩⟩
  | panicked => exact ⟨rfl, .inr ⟨by simp, _, rfl⟩⟩

/-! ## Calls that fail -/

/-- If the call fails, the cached credentials are what they were before. -/
def FailureKeeps (s : AuthState) (called : Except CallError StringMap × AuthState) : Prop :=
  ∀ err, called.1 = .error err →
    called.2.manager.cachedCredentials = s.manager.cachedCredentials

/-- Credentials that cannot be saved stay in the cache. -/
theorem failureKeeps_saveActive_iff (E : AuthEnv) (s : AuthState) (c : StringMap) :
    FailureKeeps s (saveActive E { s with manager := s.manager.setCredentials c } c) ↔
      Kept E s.stores c ∨ s.manager.cachedCredentials = some c := by
  obtain ⟨hmanager, hresult⟩ := saveActive_eq E { s with manager := s.manager.setCredentials c } c
  have hcached := congrArg AuthManager.cachedCredentials hmanager
  unfold FailureKeeps
  rw [hcached]
  rcases hresult with ⟨hkept, hok⟩ | ⟨hlost, err, herr⟩
  · exact ⟨fun _ => .inl hkept, fun _ err herr => by simp [hok] at herr⟩
  · constructor
    · intro h
      exact .inr (h err herr).symm
    · intro h _ _
      exact (h.resolve_left hlost).symm

/-- **Failed calls and the cache.** A failing `login` leaves the cached credentials alone if
and only if there was nothing to cache, they could be saved, or they were cached already; a
failing `credentials`, if and only if it did not get to the store, or found nothing usable
there, or could save what it found. -/
theorem failure_keeps_cache_iff (E : AuthEnv) (s : AuthState) (config : StringMap) :
    (FailureKeeps s (login E s config) ↔
      ∀ c, (s.manager.strategy E).authenticate config = .ok c →
        Kept E s.stores c ∨ s.manager.cachedCredentials = some c) ∧
    (FailureKeeps s (AuthManager.credentials E s) ↔
      (Unresolved E s → ∀ c, found E s = some c → Kept E s.stores c)) := by
  constructor
  · cases hauth : (s.manager.strategy E).authenticate config with
    | error err =>
        refine ⟨fun _ c h => by simp at h, fun _ _ _ => ?_⟩
        unfold login
        rw [hauth]
        rfl
    | ok c =>
        rw [login_of_authenticate hauth, failureKeeps_saveActive_iff]
        exact ⟨fun h c' heq => Except.ok.inj heq ▸ h, fun h => h c rfl⟩
  · rcases credentials_cases E s with ⟨c, n, hcached, -, heq⟩ | ⟨c, -, henv, heq⟩ |
      ⟨c, hnone, hfound, heq⟩ | ⟨err, -, hnone, heq⟩
    · rw [heq]
      exact ⟨fun _ h => by simp [h.1] at hcached, fun _ err h => by simp at h⟩
    · rw [heq]
      exact ⟨fun _ h => by simp [h.2] at henv, fun _ err h => by simp at h⟩
    · rw [heq, failureKeeps_saveActive_iff]
      have hnew : s.manager.cachedCredentials ≠ some c := by
        -- what was found is valid, and the cache had nothing valid
        intro hold
        obtain ⟨parsed, -, hresolve⟩ := Option.bind_eq_some_iff.mp hfound
        have hcached : s.manager.cached E = some c :=
          (cached_eq_some E).mpr ⟨hold, (resolve_settled hresolve).valid⟩
        rw [hnone.1] at hcached
        simp at hcached
      constructor
      · intro h _ c' hfound'
        rw [← Option.some.inj (hfound.symm.trans hfound')]
        exact h.resolve_right hnew
      · intro h
        exact .inl (h hnone c hfound)
    · rw [heq]
      exact ⟨fun _ _ c hfound => by simp [hnone] at hfound, fun _ _ _ => rfl⟩

namespace Alice

open Authentication.Alice

/-- No variables, a keychain that can only be read, and a directory that cannot be created. -/
def readOnly : AuthEnv :=
  { env none none with
    save := { keychain := .failed, io := EncryptedFile.failing .createDirAll,
              nonce := Credentials.zeroNonce } }

theorem not_kept (stores : Credentials.Stores) (c : StringMap) : ¬ Kept readOnly stores c := by
  intro h
  have hfails : (Credentials.saveToFile readOnly.platform readOnly.save.io readOnly.save.nonce
      stores.file credentialAccount (readOnly.platform.toStr c)).1 = .ok () := h
  simp [Credentials.saveToFile, Credentials.encryptEntry, readOnly, env, Paths.Incident.env,
    Credentials.plain, Credentials.writeStore, EncryptedFile.failing] at hfails

/-- What cannot be saved is in the cache afterwards. -/
theorem saveActive_lost (s : AuthState) (c : StringMap) :
    (∃ err, (saveActive readOnly { s with manager := s.manager.setCredentials c } c).1 =
      .error err) ∧
    (saveActive readOnly { s with manager := s.manager.setCredentials c } c).2.manager =
      s.manager.setCredentials c := by
  obtain ⟨hmanager, ⟨hkept, -⟩ | ⟨-, hlost⟩⟩ :=
    saveActive_eq readOnly { s with manager := s.manager.setCredentials c } c
  · exact absurd hkept (not_kept _ _)
  · exact ⟨hlost, hmanager⟩

theorem unresolved (stores : Credentials.Stores) : Unresolved readOnly (fresh stores) :=
  ⟨rfl, fromEnv_eq_none (.inl rfl)⟩

theorem found_saved : ∃ c, found readOnly (fresh saved) = some c := by
  obtain ⟨fields, ⟨text, hload, hparse⟩, -, hu, hp⟩ := holds_pair none none
  have hvalid : Valid fields := .inr ⟨⟨"alice", hu, by decide⟩, "s3cr3t", hp, by decide⟩
  obtain ⟨c, hc, -⟩ := normalize_of_valid (E := readOnly) (m := (fresh saved).manager) hvalid
  refine ⟨c, Option.bind_eq_some_iff.mpr ⟨fields, Option.bind_eq_some_iff.mpr ⟨text, ?_, hparse⟩, ?_⟩⟩
  · exact congrArg (fun loaded => loaded.toOption.join) hload
  · rw [resolve, if_pos ((validate_iff readOnly _).mpr hvalid), hc]
    rfl

/-- With nothing stored there are no credentials; after a login that failed to save them there
are. A call that fails to save what it found in the store leaves it in the cache as well. -/
theorem failure_keeps_cache_fails :
    (∃ err, (AuthManager.credentials readOnly (fresh Credentials.empty)).1 = .error err) ∧
    (∃ err, (login readOnly (fresh Credentials.empty) pair).1 = .error err) ∧
    (∃ c, (AuthManager.credentials readOnly
      (login readOnly (fresh Credentials.empty) pair).2).1 = .ok c) ∧
    ¬ FailureKeeps (fresh Credentials.empty) (login readOnly (fresh Credentials.empty) pair) ∧
    ¬ FailureKeeps (fresh saved) (AuthManager.credentials readOnly (fresh saved)) := by
  have hauth : ((fresh Credentials.empty).manager.strategy readOnly).authenticate pair =
      .ok (built readOnly "alice" "s3cr3t") := authenticate_pair rfl rfl
  obtain ⟨⟨err, herr⟩, hmanager⟩ :=
    saveActive_lost (fresh Credentials.empty) (built readOnly "alice" "s3cr3t")
  rw [login_of_authenticate hauth]
  refine ⟨?_, ⟨err, herr⟩, ?_, ?_, ?_⟩
  · obtain ⟨err, heq⟩ := credentials_of_not_found (unresolved Credentials.empty) rfl
    exact ⟨err, by rw [heq]⟩
  · have hcached := (cached_eq_some readOnly).mpr ⟨congrArg AuthManager.cachedCredentials hmanager,
      (settled_built readOnly "alice" "s3cr3t").valid⟩
    obtain ⟨n, -, heq⟩ := credentials_of_cached hcached
    exact ⟨n, by rw [heq]⟩
  · intro h
    have hsame := h err herr
    rw [hmanager] at hsame
    simp [setCredentials, fresh, AuthManager.new] at hsame
  · obtain ⟨c, hc⟩ := found_saved
    obtain ⟨⟨err, herr⟩, hmanager⟩ := saveActive_lost (fresh saved) c
    intro h
    rw [credentials_of_found (unresolved saved) hc] at h
    have hsame := h err herr
    rw [hmanager] at hsame
    simp [setCredentials, fresh, AuthManager.new] at hsame

end Alice

/-! ## Calls that are made again -/

/-- Two hash maps are equal. -/
def SameMap (a b : StringMap) : Prop := ∀ key, a.lookup key = b.lookup key

/-- The same variables and the same crates; how the storage serves a call may differ. -/
structure SameEnv (E E' : AuthEnv) : Prop where
  platform : E'.platform = E.platform
  base64 : E'.base64 = E.base64
  username : E'.username = E.username
  password : E'.password = E.password

/-- The storage serves a call as a map does that holds `content`: in the states of `I` its
operations succeed, a load returns the content and a save replaces it. -/
structure Serves (I : Credentials.Stores → Prop) (content : Credentials.Stores → Option String)
    (E : AuthEnv) : Prop where
  load : ∀ stores, I stores → Credentials.loadCredential E.platform E.loadKeychain E.loadIo stores
    credentialAccount = .ok (content stores)
  save : ∀ stores text, I stores → ∃ stores', Credentials.saveCredential E.platform
    E.save.keychain E.save.io E.save.nonce stores credentialAccount text = (.ok (), stores') ∧
      I stores' ∧ content stores' = some text

/-- The stored blob as a map. -/
def blob (P : Credentials.Platform) (content : Option String) : Option StringMap :=
  content.bind P.fromStr

variable {I : Credentials.Stores → Prop} {content : Credentials.Stores → Option String}
  {stores : Credentials.Stores} {a b : StringMap}

theorem SameMap.settled (h : SameMap a b) (hb : Settled b) : Settled a := by
  constructor
  · unfold Valid
    rw [h, h, h]
    exact hb.valid
  · unfold Ready
    rw [h, h, h]
    exact hb.ready

theorem resolve_congr (h : E'.base64 = E.base64) (parsed : StringMap) :
    resolve E' m parsed = resolve E m parsed := by
  have hstrategy : m.strategy E' = m.strategy E := by rw [strategy_eq, strategy_eq, h]
  have hnormalize : m.normalizeCredentials E' = m.normalizeCredentials E := by
    funext credentials
    unfold normalizeCredentials
    rw [hstrategy]
  unfold resolve
  rw [hstrategy, hnormalize]

theorem fromEnv_congr (h : SameEnv E E') : m.fromEnv E' = m.fromEnv E := by
  have hstrategy : m.strategy E' = m.strategy E := by rw [strategy_eq, strategy_eq, h.base64]
  have hconfig : credentialsFromEnv E' m.authMethod = credentialsFromEnv E m.authMethod := by
    unfold credentialsFromEnv
    rw [h.username, h.password]
  unfold fromEnv
  rw [hstrategy, hconfig]

theorem fromEnv_settled (h : m.fromEnv E = some c) : Settled c := by
  obtain ⟨hbind, -⟩ := Option.filter_eq_some_iff.mp h
  obtain ⟨config, -, hauth⟩ := Option.bind_eq_some_iff.mp hbind
  cases hresult : (m.strategy E).authenticate config with
  | error err => simp [hresult, Except.toOption] at hauth
  | ok c' =>
      rw [hresult] at hauth
      obtain rfl := Option.some.inj hauth
      exact authenticate_settled hresult

/-- What is settled and cached is returned, whatever the storage holds. -/
theorem credentials_of_settled (h : Settled c) (E : AuthEnv) (m : AuthManager)
    (stores : Credentials.Stores) :
    AuthManager.credentials E ⟨m.setCredentials c, stores⟩ =
      (.ok c, ⟨m.setCredentials c, stores⟩) := by
  obtain ⟨n, hn, heq⟩ := credentials_of_cached (E := E) (s := ⟨m.setCredentials c, stores⟩)
    ((cached_eq_some E).mpr ⟨rfl, h.valid⟩)
  rw [normalize_of_ready h.ready] at hn
  rw [heq, Except.ok.inj hn]

theorem saveActive_of_serves (hE : Serves I content E) (hI : I s.stores) (c : StringMap) :
    ∃ stores', saveActive E s c = (.ok c, { s with stores := stores' }) ∧ I stores' ∧
      content stores' = some (E.platform.toStr c) := by
  obtain ⟨stores', hsave, hI', hcontent⟩ := hE.save s.stores (E.platform.toStr c) hI
  refine ⟨stores', ?_, hI', hcontent⟩
  simp only [saveActive, hsave]

theorem found_of_serves (hE : Serves I content E) (hI : I s.stores) :
    found E s = (blob E.platform (content s.stores)).bind (resolve E s.manager) := by
  unfold found
  rw [hE.load s.stores hI]
  rfl

/-- What was saved settled is found again. -/
theorem credentials_again (hP : E.platform.Lawful) (hE : Serves I content E) (hI : I stores)
    (henv : (AuthManager.new .basic).fromEnv E = none) (hsettled : Settled c)
    (hcontent : content stores = some (E.platform.toStr c)) :
    ∃ c' s', AuthManager.credentials E (fresh stores) = (.ok c', s') ∧ SameMap c' c ∧
      Option.Rel SameMap (blob E.platform (content s'.stores))
        (blob E.platform (content stores)) := by
  obtain ⟨c', hparse, hsame⟩ := hP.fromStr_toStr c
  have hblob : blob E.platform (content stores) = some c' := by rw [hcontent]; exact hparse
  have hfound : found E (fresh stores) = some c' := by
    have heq := found_of_serves (s := fresh stores) hE hI
    rw [show content (fresh stores).stores = content stores from rfl, hblob] at heq
    exact heq.trans (resolve_of_settled (SameMap.settled hsame hsettled))
  obtain ⟨stores', hsave, -, hcontent'⟩ := saveActive_of_serves
    (s := { fresh stores with manager := (fresh stores).manager.setCredentials c' }) hE hI c'
  refine ⟨c', _, (credentials_of_found ⟨rfl, henv⟩ hfound).trans hsave, hsame, ?_⟩
  -- what is saved again reads back as the same map
  obtain ⟨c'', hparse', hsame'⟩ := hP.fromStr_toStr c'
  have hblob' : blob E.platform (content stores') = some c'' := by rw [hcontent']; exact hparse'
  show Option.Rel SameMap (blob E.platform (content stores')) _
  rw [hblob, hblob']
  exact .some hsame'

/-- **Stability.** When a fresh manager resolves credentials, over a storage that behaves as a
map, the same manager returns them again without the storage, and a fresh one in the same
environment returns them again and leaves the stored map as it was. When it finds none, it
has changed nothing and finds none again. -/
theorem resolution_stable (hP : E.platform.Lawful) (hE : Serves I content E)
    (hE' : Serves I content E') (hsame : SameEnv E E') (stores : Credentials.Stores)
    (hI : I stores) :
    (∀ c s, AuthManager.credentials E (fresh stores) = (.ok c, s) →
      (∀ (F : AuthEnv) (stores' : Credentials.Stores),
        AuthManager.credentials F ⟨s.manager, stores'⟩ = (.ok c, ⟨s.manager, stores'⟩)) ∧
      ∃ c' s', AuthManager.credentials E' (fresh s.stores) = (.ok c', s') ∧ SameMap c' c ∧
        Option.Rel SameMap (blob E.platform (content s'.stores))
          (blob E.platform (content s.stores))) ∧
    (∀ err s, AuthManager.credentials E (fresh stores) = (.error err, s) →
      s.stores = stores ∧ ∃ err', AuthManager.credentials E' s = (.error err', s)) := by
  have henv : (AuthManager.new .basic).fromEnv E' = (AuthManager.new .basic).fromEnv E :=
    fromEnv_congr hsame
  have hrefl : ∀ o : Option StringMap, Option.Rel SameMap o o := by
    intro o
    cases o with
    | none => exact .none
    | some m => exact .some fun _ => rfl
  rcases credentials_cases E (fresh stores) with ⟨_, _, hcached, -⟩ | ⟨c, -, hfrom, heq⟩ |
    ⟨c, hnone, hfound, heq⟩ | ⟨err, hnone, hfound, heq⟩
  · exact absurd hcached (by simp [fresh, AuthManager.new, cached])
  · -- the environment's pair: nothing is stored
    rw [heq]
    refine ⟨fun c' s h => ?_, fun _ _ h => by simp at h⟩
    obtain ⟨hc, rfl⟩ := Prod.mk.inj h
    obtain rfl := Except.ok.inj hc
    refine ⟨fun F stores' => credentials_of_settled (fromEnv_settled hfrom) F _ stores', c,
      { fresh stores with manager := (fresh stores).manager.setCredentials c }, ?_, fun _ => rfl,
      hrefl _⟩
    exact credentials_of_env rfl (henv.trans hfrom)
  · -- a stored blob: what it becomes is saved in its place
    obtain ⟨parsed, -, hresolve⟩ := Option.bind_eq_some_iff.mp hfound
    have hsettled := resolve_settled hresolve
    obtain ⟨stores', hsave, hI', hcontent⟩ := saveActive_of_serves
      (s := { fresh stores with manager := (fresh stores).manager.setCredentials c }) hE hI c
    rw [heq, hsave]
    refine ⟨fun c' s h => ?_, fun _ _ h => by simp at h⟩
    obtain ⟨hc, rfl⟩ := Prod.mk.inj h
    obtain rfl := Except.ok.inj hc
    refine ⟨fun F stores'' => credentials_of_settled hsettled F _ stores'', ?_⟩
    rw [← hsame.platform] at hP hcontent ⊢
    exact credentials_again hP hE' hI' (henv.trans hnone.2) hsettled hcontent
  · rw [heq]
    refine ⟨fun _ _ h => by simp at h, fun err' s h => ?_⟩
    obtain ⟨-, rfl⟩ := Prod.mk.inj h
    refine ⟨rfl, credentials_of_not_found ⟨rfl, henv.trans hnone.2⟩ ?_⟩
    rw [found_of_serves hE hI] at hfound
    rw [found_of_serves hE' hI, hsame.platform, funext (resolve_congr hsame.base64)]
    exact hfound

/-- A keychain that works is such a storage, -/
theorem serves_keychain (hload : E.loadKeychain = .available)
    (hsave : E.save.keychain = .available) :
    Serves (fun stores => stores.file = none) (fun stores => stores.keychain credentialAccount)
      E where
  load stores hI := by
    have hpassword : E.loadKeychain.getPassword (stores.keychain credentialAccount) =
        stores.keychain credentialAccount := by rw [hload]; rfl
    unfold Credentials.loadCredential
    rw [hpassword]
    cases stores.keychain credentialAccount with
    | some password => rfl
    | none =>
        show Credentials.loadFromFile E.platform E.loadIo stores.file credentialAccount = _
        rw [hI]
        simp [Credentials.loadFromFile, Credentials.readStore]
  save stores text hI := by
    refine ⟨{ stores with
      keychain := Function.update stores.keychain credentialAccount (some text) }, ?_, hI, ?_⟩
    · simp only [Credentials.saveCredential, hsave, Credentials.Keychain.setPassword, if_true]
    · show Function.update stores.keychain credentialAccount (some text) credentialAccount = _
      rw [Function.update_self]

/-- ... and so is the encrypted file, as long as its values can be encrypted. -/
theorem serves_file (hP : E.platform.Lawful) (hload : E.loadKeychain ≠ .available)
    (hloadIo : E.loadIo = .healthy) (hsave : E.save.keychain ≠ .available)
    (hsaveIo : E.save.io = .healthy)
    (hencrypt : ∀ text, Credentials.encryptEntry E.platform E.save.nonce text ≠ none) :
    Serves
      (fun stores => ∃ value, Credentials.loadFromFile E.platform .healthy stores.file
        credentialAccount = .ok value)
      (fun stores => (Credentials.loadFromFile E.platform .healthy stores.file
        credentialAccount).toOption.join) E where
  load stores hI := by
    obtain ⟨value, hvalue⟩ := hI
    have hnone : E.loadKeychain.getPassword (stores.keychain credentialAccount) = none := by
      cases hkey : E.loadKeychain with
      | available => exact absurd hkey hload
      | noEntry => rfl
      | failed => rfl
    simp only [Credentials.loadCredential, hnone, hloadIo, hvalue]
    rfl
  save stores text hI := by
    obtain ⟨entry, hentry⟩ := Option.ne_none_iff_exists'.mp (hencrypt text)
    obtain ⟨hok, hwritten, -⟩ :=
      Credentials.saveToFile_healthy hP hentry stores.file credentialAccount
    have hload := EncryptedFile.loadFromFile_entry hP hentry hwritten
    refine ⟨{ stores with file := (Credentials.saveToFile E.platform .healthy E.save.nonce
      stores.file credentialAccount text).2 }, ?_, ⟨_, hload⟩, ?_⟩
    · rw [Credentials.saveCredential_fallback hsave, hsaveIo, hok]
    · show (Credentials.loadFromFile E.platform .healthy _ credentialAccount).toOption.join = _
      rw [hload]
      rfl

namespace Alice

open Authentication.Alice

/-- A stored pair, with a keychain that works. -/
theorem resolution_stable_alice : ∃ c s,
    AuthManager.credentials (env none none) (fresh saved) = (.ok c, s) ∧
    (∀ (F : AuthEnv) (stores' : Credentials.Stores),
      AuthManager.credentials F ⟨s.manager, stores'⟩ = (.ok c, ⟨s.manager, stores'⟩)) ∧
    ∃ c' s', AuthManager.credentials (env none none) (fresh s.stores) = (.ok c', s') ∧
      SameMap c' c ∧ Option.Rel SameMap
        (blob Credentials.plain (s'.stores.keychain credentialAccount))
        (blob Credentials.plain (s.stores.keychain credentialAccount)) := by
  have hserves := serves_keychain (E := env none none) rfl rfl
  obtain ⟨c, hc⟩ := found_saved
  have hfound : found (env none none) (fresh saved) = some c := hc
  obtain ⟨stores', hsave, -⟩ := saveActive_of_serves
    (s := { fresh saved with manager := (fresh saved).manager.setCredentials c }) hserves rfl c
  have hresolved := (credentials_of_found ⟨rfl, fromEnv_eq_none (.inl rfl)⟩ hfound).trans hsave
  exact ⟨c, _, hresolved, (resolution_stable Credentials.plain_lawful hserves hserves
    ⟨rfl, rfl, rfl, rfl⟩ saved rfl).1 c _ hresolved⟩

end Alice

/-! ## The header of a pair -/

/-- The header that `authenticate` makes of a pair. -/
def basicHeader (E : AuthEnv) (username password : String) : String :=
  "Basic " ++ E.base64 (Utf8.encode (username ++ ":" ++ password))

/-- What a server reads from the token: it decodes it and splits at the first colon. -/
def readToken (decode : String → Option Bytes) (token : String) :
    Option (List Char × List Char) :=
  ((decode token).bind Utf8.decode).bind fun text => Credentials.splitOnce ':' text.toList

/-- The headers have a Basic token that a server reads as this pair. -/
def Identifies (decode : String → Option Bytes) (applied : Except CallError StringMap)
    (username password : String) : Prop :=
  ∃ headers token, applied = .ok headers ∧
    headers.lookup "Authorization" = some ("Basic " ++ token) ∧
    readToken decode token = some (username.toList, password.toList)

variable {decode : String → Option Bytes} {username password : String}

/-- The first part has no separator, and the whole is put together again. -/
theorem splitOnce_eq_some {sep : Char} {text before after : List Char}
    (h : Credentials.splitOnce sep text = some (before, after)) :
    sep ∉ before ∧ text = before ++ sep :: after := by
  induction text generalizing before with
  | nil => simp [Credentials.splitOnce] at h
  | cons c text ih =>
      rw [Credentials.splitOnce] at h
      split at h
      · rename_i hc
        obtain ⟨rfl, rfl⟩ := Prod.mk.inj (Option.some.inj h)
        exact ⟨by simp, by rw [hc]; rfl⟩
      · rename_i hc
        obtain ⟨⟨first, rest⟩, hsplit, heq⟩ := Option.map_eq_some_iff.mp h
        obtain ⟨rfl, rfl⟩ := Prod.mk.inj heq
        obtain ⟨hfirst, rfl⟩ := ih hsplit
        refine ⟨?_, rfl⟩
        rw [List.mem_cons, not_or]
        exact ⟨Ne.symm hc, hfirst⟩

theorem toList_pair (username password : String) :
    (username ++ ":" ++ password).toList = username.toList ++ ':' :: password.toList := by
  simp [String.toList_append]

/-- A server reads a pair back exactly when the username has no colon. -/
theorem readToken_iff {encode : Bytes → String} (hdecode : ∀ bytes, decode (encode bytes) = some bytes)
    (username password : String) :
    readToken decode (encode (Utf8.encode (username ++ ":" ++ password))) =
      some (username.toList, password.toList) ↔ ':' ∉ username.toList := by
  unfold readToken
  rw [hdecode, Option.bind_some, Utf8.decode_encode, Option.bind_some, toList_pair]
  constructor
  · intro h
    exact (splitOnce_eq_some h).1
  · intro h
    exact Credentials.splitOnce_append h

theorem basicHeader_inj (hdecode : ∀ bytes, decode (E.base64 bytes) = some bytes)
    {username' password' : String} (hu : ':' ∉ username.toList) (hu' : ':' ∉ username'.toList)
    (h : basicHeader E username password = basicHeader E username' password') :
    username = username' ∧ password = password' := by
  have htoken : E.base64 (Utf8.encode (username ++ ":" ++ password)) =
      E.base64 (Utf8.encode (username' ++ ":" ++ password')) := by
    have hchars := congrArg String.toList h
    simpa [basicHeader, String.toList_append, String.toList_inj] using hchars
  have hread := (readToken_iff hdecode username password).mpr hu
  rw [htoken, (readToken_iff hdecode username' password').mpr hu'] at hread
  obtain ⟨huser, hpass⟩ := Prod.mk.inj (Option.some.inj hread)
  exact ⟨(String.toList_inj.mp huser).symm, (String.toList_inj.mp hpass).symm⟩

theorem decorate_built (headers : StringMap) (username password : String) :
    decorate headers (built E username password) =
      headers.insert "Authorization" (basicHeader E username password) := by
  have hname : (built E username password).lookup "request_header_name" = none := by
    rw [built, AList.lookup_insert_ne (by decide), AList.lookup_insert_ne (by decide),
      AList.lookup_insert_ne (by decide)]
    rfl
  unfold decorate
  rw [hname, (builtFrom_built E username password).header_eq]
  rfl

theorem token_eq {token token' : String} (h : "Basic " ++ token = "Basic " ++ token') :
    token = token' := by
  have hchars := congrArg String.toList h
  simpa [String.toList_append, String.toList_inj] using hchars

section Stored

variable {stores : Credentials.Stores} {fields : StringMap}

/-- A stored pair that is saved again comes with its header, -/
theorem authorization_of_stored (henv : E.username = none ∨ E.password = none)
    (hblob : Holds E stores (some fields)) (hfields : AtMostPair fields)
    (hu : fields.lookup "username" = some username)
    (hp : fields.lookup "password" = some password) (headers : StringMap)
    (requestOverride : Option RequestCredentials) :
    (Saves E stores username password →
      (applyAuthHeaders E (fresh stores) headers .stdio requestOverride).1 =
        .ok (headers.insert "Authorization" (basicHeader E username password))) ∧
    (∀ headers', (applyAuthHeaders E (fresh stores) headers .stdio requestOverride).1 = .ok headers' →
      Saves E stores username password ∧
        headers'.lookup "Authorization" = some (basicHeader E username password)) := by
  have happlied : (applyAuthHeaders E (fresh stores) headers .stdio requestOverride).1 =
      (AuthManager.credentials E (fresh stores)).1.map (decorate headers) := by
    cases requestOverride <;> rfl
  have hstored := credentials_of_stored henv hblob (by rintro _ ⟨⟩; exact hfields)
  rw [happlied]
  constructor
  · intro hsaves
    rw [(hstored (built E username password)).mpr
      ⟨fields, rfl, username, password, hu, hp, hsaves, rfl⟩]
    exact congrArg Except.ok (decorate_built headers username password)
  · intro headers' hok
    cases hresult : (AuthManager.credentials E (fresh stores)).1 with
    | error err =>
        rw [hresult] at hok
        simp [Except.map] at hok
    | ok c =>
        obtain ⟨_, ⟨⟩, u, p, hu', hp', hsaves, rfl⟩ := (hstored c).mp hresult
        obtain rfl := Option.some.inj (hu.symm.trans hu')
        obtain rfl := Option.some.inj (hp.symm.trans hp')
        rw [hresult] at hok
        obtain rfl : decorate headers (built E username password) = headers' := Except.ok.inj hok
        exact ⟨hsaves, by rw [decorate_built, AList.lookup_insert]⟩

/-- **The header identifies the user.** For a pair that the setup wizard stored, a server reads
the pair back from the header if and only if the username has no colon and the credentials
could be saved again; and without colons in the usernames, different pairs have different
headers. -/
theorem basic_header_identifies_iff (hdecode : ∀ bytes, decode (E.base64 bytes) = some bytes)
    (henv : E.username = none ∨ E.password = none)
    (hblob : Holds E stores (some fields)) (hfields : AtMostPair fields)
    (hu : fields.lookup "username" = some username)
    (hp : fields.lookup "password" = some password) (headers : StringMap)
    (requestOverride : Option RequestCredentials) :
    (Identifies decode
        (applyAuthHeaders E (fresh stores) headers .stdio requestOverride).1 username password ↔
      ':' ∉ username.toList ∧ Saves E stores username password) ∧
    (∀ username' password', ':' ∉ username.toList → ':' ∉ username'.toList →
      basicHeader E username password = basicHeader E username' password' →
        username = username' ∧ password = password') := by
  obtain ⟨hset, hfound⟩ :=
    authorization_of_stored henv hblob hfields hu hp headers requestOverride
  refine ⟨?_, fun username' password' hcolon hcolon' => basicHeader_inj hdecode hcolon hcolon'⟩
  constructor
  · rintro ⟨headers', token, hok, hauth, hread⟩
    obtain ⟨hsaves, hheader⟩ := hfound headers' hok
    rw [← token_eq (Option.some.inj (hheader.symm.trans hauth))] at hread
    exact ⟨(readToken_iff hdecode username password).mp hread, hsaves⟩
  · rintro ⟨hcolon, hsaves⟩
    exact ⟨_, _, hset hsaves, AList.lookup_insert _,
      (readToken_iff hdecode username password).mpr hcolon⟩

end Stored

namespace Colon

/-- No variables, a keychain that works, and base64. -/
def env : AuthEnv :=
  { Authentication.Alice.env none none with
    base64 := fun bytes => String.ofList (Base64.encode bytes) }

def fromBase64 (token : String) : Option Bytes := Base64.decode token.toList

theorem fromBase64_base64 (bytes : Bytes) : fromBase64 (env.base64 bytes) = some bytes := by
  show Base64.decode (String.ofList (Base64.encode bytes)).toList = some bytes
  rw [String.toList_ofList, Base64.decode_encode]

/-- The keychain after the setup wizard. -/
def wizard (username password : String) : Credentials.Stores where
  keychain := Function.update (fun _ => none) credentialAccount
    (some (Credentials.plain.toStr (Setup.promptCredentials username password)))
  file := none

theorem holds_wizard (username password : String) : ∃ fields,
    Holds env (wizard username password) (some fields) ∧ AtMostPair fields ∧
      fields.lookup "username" = some username ∧ fields.lookup "password" = some password := by
  obtain ⟨fields, hparse, hsame⟩ :=
    Credentials.plain_lawful.fromStr_toStr (Setup.promptCredentials username password)
  refine ⟨fields, ⟨_, rfl, hparse⟩, fun key hkey => ?_, ?_, ?_⟩
  · rw [← AList.lookup_isSome, hsame, AList.lookup_isSome] at hkey
    simp only [Setup.promptCredentials, AList.mem_insert, AList.notMem_empty, or_false] at hkey
    exact hkey.symm
  · rw [hsame, Setup.promptCredentials, AList.lookup_insert_ne (by decide), AList.lookup_insert]
  · rw [hsame, Setup.promptCredentials, AList.lookup_insert]

example : basicHeader env "alice" "s3cr3t" = "Basic YWxpY2U6czNjcjN0" := by decide

/-- The header of a username with a colon is that of another user. -/
theorem basic_header_fails : ∃ fields, Holds env (wizard "a:b" "c") (some fields) ∧
    AtMostPair fields ∧ fields.lookup "username" = some "a:b" ∧
    fields.lookup "password" = some "c" ∧
    ¬ Identifies fromBase64 (applyAuthHeaders env (fresh (wizard "a:b" "c")) ∅ .stdio none).1
      "a:b" "c" ∧
    basicHeader env "a:b" "c" = basicHeader env "a" "b:c" := by
  obtain ⟨fields, hholds, hpair, hu, hp⟩ := holds_wizard "a:b" "c"
  refine ⟨fields, hholds, hpair, hu, hp, ?_, rfl⟩
  rintro ⟨headers, token, hok, hauth, hread⟩
  obtain ⟨-, hheader⟩ :=
    (authorization_of_stored (.inl rfl) hholds hpair hu hp ∅ none).2 headers hok
  rw [← token_eq (Option.some.inj (hheader.symm.trans hauth))] at hread
  exact absurd ((readToken_iff fromBase64_base64 "a:b" "c").mp hread) (by decide)

/-- Without a colon the user is identified. -/
theorem basic_header_identifies_iff_alice :
    Identifies fromBase64 (applyAuthHeaders env (fresh (wizard "alice" "s3cr3t")) ∅ .stdio none).1
      "alice" "s3cr3t" := by
  obtain ⟨fields, hholds, hpair, hu, hp⟩ := holds_wizard "alice" "s3cr3t"
  exact (basic_header_identifies_iff fromBase64_base64 (.inl rfl) hholds hpair hu hp ∅ none).1.mpr
    ⟨by decide, rfl⟩

end Colon

end TopdeskMcp.Theorems.Resolution
