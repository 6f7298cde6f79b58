import TopdeskMcp.Core.CredentialStorage
import TopdeskMcp.Lib.Json

/-!
# Credentials over histories of operations

Each operation goes to the backend its keychain answer picks, and leaves the
other one alone. Two promises, over every sequence of operations:

* **stays deleted** — after a deletion that returned `Ok`, no load finds the
  account until it is saved again. A deletion that the keychain answers never
  looks at the file, and one that goes to the file never empties the keychain,
  so this holds exactly as long as each deletion reaches the backend that has
  the credential (`DeleteReaches`);
* **last save wins** — a load never returns a superseded value. A save leaves
  the other backend's older value in place, so this holds exactly as long as
  the other backend has no other value (`OtherBackendAgrees`).
-/

namespace TopdeskMcp.Theorems.Credentials

open TopdeskMcp TopdeskMcp.Credentials Trace Function

variable {P : Platform} {s s' : Stores} {a b x : String}

/-- The value a load finds in the file when nothing fails. -/
def loadable (P : Platform) (file : Option Bytes) (account : String) : Option String :=
  (loadFromFile P .healthy file account).toOption.join

theorem loadable_eq (P : Platform) (file : Option Bytes) (account : String) :
    loadable P file account =
      (rawEntry P file account).bind fun raw => (decryptEntry P account raw).toOption := by
  unfold loadable loadFromFile
  rw [readStore_lookup]
  cases hraw : rawEntry P file account with
  | none => rfl
  | some raw =>
      cases hvalue : decryptEntry P account raw <;>
        simp [Io.healthy, hvalue, Outcome.bind, Outcome.toOption]

/-- Whatever a load finds in the file is loadable. -/
theorem loadFromFile_eq_some {io : Io} {file : Option Bytes} :
    loadFromFile P io file a = .ok (some x) ↔
      io.readable = true ∧ loadable P file a = some x := by
  rw [loadable_eq, loadFromFile, readStore_lookup]
  cases hread : io.readable with
  | false => simp
  | true =>
      cases rawEntry P file a with
      | none => simp
      | some raw =>
          cases hraw : decryptEntry P a raw <;> simp [Outcome.bind, Outcome.toOption, hraw]

theorem loadable_congr {file file' : Option Bytes} (h : rawEntry P file' a = rawEntry P file a) :
    loadable P file' a = loadable P file a := by
  rw [loadable_eq, loadable_eq, h]

theorem loadable_of_rawEntry {file : Option Bytes} (h : rawEntry P file a = none) :
    loadable P file a = none := by
  rw [loadable_eq, h]
  rfl

/-- What can become of an account's file entry while others are written. -/
theorem loadable_frame {file file' : Option Bytes}
    (h : rawEntry P file' a = rawEntry P file a ∨ rawEntry P file' a = none)
    (hx : loadable P file' a = some x) : loadable P file a = some x := by
  rcases h with hkeep | hlost
  · rw [← loadable_congr hkeep, hx]
  · rw [loadable_of_rawEntry hlost] at hx
    simp at hx

/-- A save to the file, with nothing failing, makes its value the one to load. -/
theorem loadable_saveToFile (hP : P.Lawful) {nonce : Nonce} {value entry : String}
    (hentry : encryptEntry P nonce value = some entry) (file : Option Bytes) (account : String) :
    loadable P (saveToFile P .healthy nonce file account value).2 account = some value := by
  rw [loadable_eq, (saveToFile_healthy hP hentry file account).2.1, Option.bind_some,
    decryptEntry_encryptEntry hP hentry]
  rfl

/-- A load returns the keychain's value or the file's. -/
theorem loadCredential_eq_some {keychain : Keychain} {io : Io} :
    loadCredential P keychain io s a = .ok (some x) ↔
      keychain.getPassword (s.keychain a) = some x ∨
        (keychain.getPassword (s.keychain a) = none ∧ io.readable = true ∧
          loadable P s.file a = some x) := by
  unfold loadCredential
  split
  · rename_i password hpassword
    simp [hpassword]
  · rename_i hnone
    simp [hnone, loadFromFile_eq_some]

theorem getPassword_eq_some {keychain : Keychain} {entry : Option String} :
    keychain.getPassword entry = some x ↔ keychain = .available ∧ entry = some x := by
  cases keychain <;> simp [Keychain.getPassword]

/-! ## A concrete platform -/

/-- JSON as it is, with a cipher that hides nothing. -/
def plain : Platform where
  home := "/home/user"
  sha256 := id
  encrypt _ _ plaintext := some plaintext
  decrypt _ _ ciphertext := some ciphertext
  fromStr text := (Json.parseObject text.toList).map fun members =>
    (members.map fun m => (⟨m.1, m.2⟩ : Σ _ : String, String)).toAList
  toStr store := String.ofList (Json.writeObject (store.entries.map fun e => (e.1, e.2)))

theorem plain_lawful : plain.Lawful where
  decrypt_encrypt _ _ _ _ h := h.symm
  fromStr_toStr store := by
    have hentries : (store.entries.map fun e => (e.1, e.2)).map
        (fun m => (⟨m.1, m.2⟩ : Σ _ : String, String)) = store.entries := by
      simp [Function.comp_def]
    refine ⟨store.entries.toAList, ?_, fun account => AList.lookup_to_alist store.entries⟩
    simp [plain, Json.parseObject_write, hentries]
  fromStr_prefix store kept hkept := by
    cases hdecode : Utf8.decode ((Utf8.encode (plain.toStr store)).take kept) with
    | none => rfl
    | some text =>
        have hbytes := Utf8.encode_of_decode hdecode
        have hfull : Utf8.encode text ++ (Utf8.encode (plain.toStr store)).drop kept =
            Utf8.encode (plain.toStr store) := by rw [hbytes, List.take_append_drop]
        obtain ⟨more, hmore⟩ := Utf8.prefix_of_encode hfull
        -- a prefix that is text has characters missing at its end
        have hne : more ≠ [] := by
          rintro rfl
          rw [List.append_nil] at hmore
          have hsame : Utf8.encode text = Utf8.encode (plain.toStr store) := by
            rw [Utf8.encode, hmore, Utf8.encode]
          rw [hbytes] at hsame
          have hlen := congrArg List.length hsame
          rw [List.length_take] at hlen
          omega
        have hnone := Json.parseObject_prefix (by simpa [plain] using hmore) hne
        simp [plain, hnone]

def zeroNonce : Nonce := ⟨List.replicate 12 0, rfl⟩

/-- A save to the encrypted file, the keychain being out of order. -/
def saveFallback (value : String) : Event :=
  .save "active-credentials" value .failed .healthy zeroNonce

/-! ## A deleted credential stays deleted -/

/-- A deletion in the file fails: it finds the entry and cannot write. -/
def FileDeleteFails (P : Platform) (io : Io) (file : Option Bytes) (account : String) : Prop :=
  (readStore P io file).lookup account ≠ none ∧ io.fault ≠ none

/-- The deletion reaches every backend that has the credential, or fails. -/
def DeleteReaches (P : Platform) (s : Stores) : Event → Prop
  | .delete account .available _ => loadable P s.file account = none
  | .delete account .noEntry _ =>
      s.keychain account = none ∧ loadable P s.file account = none
  | .delete account .failed io => ¬ FileDeleteFails P io s.file account →
      s.keychain account = none ∧ (io.readable = true ∨ loadable P s.file account = none)
  | _ => True

/-- No load of the account finds anything. -/
def LoadsNothing (P : Platform) (account : String) (s : Stores) : Event → Prop
  | .load other keychain io => other = account →
      ∀ value, loadCredential P keychain io s other ≠ .ok (some value)
  | _ => True

def Saves (account : String) : Event → Prop
  | .save other _ _ _ _ => other = account
  | _ => False

/-- After every deletion that returns `Ok`, no load finds the account until it
is saved again. -/
def StaysDeleted (P : Platform) (s₀ : Stores) (es : List Event) : Prop :=
  ∀ pre account keychain io post rest s, es = pre ++ .delete account keychain io :: post ++ rest →
    (credentials P).run s₀ pre = some s →
    (deleteCredential P keychain io s account).1 = .ok () → (∀ e ∈ post, ¬ Saves account e) →
    (credentials P).Along (LoadsNothing P account) (next P s (.delete account keychain io)) post

/-- Neither backend has the account. -/
def Gone (P : Platform) (account : String) (s : Stores) : Prop :=
  s.keychain account = none ∧ loadable P s.file account = none

theorem Gone.loadsNothing (h : Gone P a s) (e : Event) : LoadsNothing P a s e := by
  cases e with
  | load b keychain io =>
      rintro rfl value hload
      rcases loadCredential_eq_some.mp hload with hkey | ⟨-, -, hfile⟩
      · rw [h.1] at hkey
        simpa using (getPassword_eq_some.mp hkey).2
      · rw [h.2] at hfile
        simp at hfile
  | save => trivial
  | delete => trivial

/-- What is not loadable does not become so by writing other accounts. -/
theorem loadable_none_frame {file file' : Option Bytes}
    (h : rawEntry P file' a = rawEntry P file a ∨ rawEntry P file' a = none)
    (hnone : loadable P file a = none) : loadable P file' a = none := by
  cases hx : loadable P file' a with
  | none => rfl
  | some x => rw [← hnone, loadable_frame h hx]

/-- Nothing but a save of the account brings it back. -/
theorem Gone.next (hP : P.Lawful) (h : Gone P a s) {e : Event} (he : ¬ Saves a e) :
    Gone P a (next P s e) := by
  cases e with
  | save b value keychain io nonce =>
      -- a save of another account
      have hne : a ≠ b := Ne.symm he
      simp only [Credentials.next, saveCredential]
      split
      · exact ⟨by simpa [update_of_ne hne] using h.1, h.2⟩
      · exact ⟨h.1, loadable_none_frame (rawEntry_saveToFile hP io nonce s.file value hne) h.2⟩
  | load => exact h
  | delete b keychain io =>
      simp only [Credentials.next, deleteCredential]
      split
      · refine ⟨?_, h.2⟩
        cases keychain with
        | available =>
            by_cases hne : a = b
            · simp [Keychain.erase, hne]
            · simpa [Keychain.erase, update_of_ne hne] using h.1
        | noEntry => exact h.1
        | failed => exact h.1
      · exact ⟨h.1, loadable_none_frame (rawEntry_deleteFromFile hP io s.file b a) h.2⟩

/-- A deletion in the file that can see the entry, and does not fail, removes it. -/
theorem loadable_deleteFromFile (hP : P.Lawful) {io : Io} {file : Option Bytes}
    (hdone : ¬ FileDeleteFails P io file a)
    (hsees : io.readable = true ∨ loadable P file a = none) :
    loadable P (deleteFromFile P io file a).2 a = none := by
  rcases hsees with hread | hnone
  · cases hlookup : (readStore P io file).lookup a with
    | none =>
        have hraw : rawEntry P file a = none := by simpa [readStore_lookup, hread] using hlookup
        exact loadable_none_frame (rawEntry_deleteFromFile hP io file a a)
          (loadable_of_rawEntry hraw)
    | some raw =>
        have hfault : io.fault = none := by
          simpa [FileDeleteFails, hlookup] using hdone
        refine loadable_of_rawEntry ?_
        simp only [deleteFromFile, hlookup]
        rw [(writeStore_ok hP io hfault file _).2, AList.lookup_erase]
  · exact loadable_none_frame (rawEntry_deleteFromFile hP io file a a) hnone

theorem deleteCredential_ok_iff {keychain : Keychain} {io : Io} :
    (deleteCredential P keychain io s a).1 = .ok () ↔
      keychain.deletes = true ∨ ¬ FileDeleteFails P io s.file a := by
  unfold deleteCredential
  split
  · rename_i hdeletes
    simp [hdeletes]
  · rename_i hnot
    simp only [hnot, deleteFromFile, FileDeleteFails]
    cases hlookup : (readStore P io s.file).lookup a with
    | none => simp
    | some raw =>
        cases hfault : io.fault with
        | none => simp [writeStore, hfault]
        | some fault => cases fault <;> simp [writeStore, hfault]

/-- A deletion that returns `Ok` leaves neither backend with the credential exactly
when it reached every backend that had it. -/
theorem gone_next_iff (hP : P.Lawful) {keychain : Keychain} {io : Io}
    (hok : (deleteCredential P keychain io s a).1 = .ok ()) :
    Gone P a (next P s (.delete a keychain io)) ↔
      DeleteReaches P s (.delete a keychain io) := by
  cases keychain with
  | available =>
      -- the keychain's entry goes, the file is not looked at
      refine ⟨fun h => h.2, fun h => ⟨?_, h⟩⟩
      simp [next, deleteCredential, Keychain.deletes, Keychain.erase]
  | noEntry =>
      -- nothing is deleted anywhere
      exact Iff.rfl
  | failed =>
      -- the file's entry goes, the keychain's stays
      have hdone := (deleteCredential_ok_iff.mp hok).resolve_left (by simp [Keychain.deletes])
      constructor
      · intro h _
        refine ⟨h.1, ?_⟩
        cases hread : io.readable with
        | true => exact .inl rfl
        | false =>
            have hsame : (deleteFromFile P io s.file a).2 = s.file := by
              simp [deleteFromFile, readStore_lookup, hread]
            exact .inr (hsame ▸ h.2)
      · intro h
        exact ⟨(h hdone).1, loadable_deleteFromFile hP hdone (h hdone).2⟩

/-- What some backend still has, some load finds. -/
theorem exists_load_of_not_gone (h : ¬ Gone P a s) : ∃ e, ¬ LoadsNothing P a s e := by
  by_cases hkey : s.keychain a = none
  · obtain ⟨x, hx⟩ := Option.ne_none_iff_exists'.mp fun hnone => h ⟨hkey, hnone⟩
    refine ⟨.load a .failed .healthy, fun hload => hload rfl x ?_⟩
    exact loadCredential_eq_some.mpr (.inr ⟨rfl, rfl, hx⟩)
  · obtain ⟨x, hx⟩ := Option.ne_none_iff_exists'.mp hkey
    refine ⟨.load a .available .healthy, fun hload => hload rfl x ?_⟩
    exact loadCredential_eq_some.mpr (.inl hx)

theorem gone_inductive (hP : P.Lawful) (account : String) :
    (credentials P).Inductive (fun _ e => ¬ Saves account e) (Gone P account) := by
  intro s e s' hI hC h
  obtain rfl : next P s e = s' := Option.some.inj h
  exact hI.next hP hC

/-- A deletion that returns `Ok` and misses a backend breaks the promise. -/
theorem not_staysDeleted (hP : P.Lawful) {s₀ : Stores} {es : List Event} {keychain : Keychain}
    {io : Io} (hrun : (credentials P).run s₀ es = some s)
    (hok : (deleteCredential P keychain io s a).1 = .ok ())
    (hC : ¬ DeleteReaches P s (.delete a keychain io)) :
    ∃ load, ¬ StaysDeleted P s₀ (es ++ [.delete a keychain io, load]) := by
  obtain ⟨load, hload⟩ := exists_load_of_not_gone (mt (gone_next_iff hP hok).mp hC)
  refine ⟨load, fun hstays => hload ?_⟩
  have hquiet : ∀ e ∈ [load], ¬ Saves a e := by
    rintro e he hsaves
    obtain rfl := List.mem_singleton.mp he
    cases e with
    | save => exact hload trivial
    | load => exact hsaves
    | delete => exact hsaves
  exact (hstays es a keychain io [load] [] s (by simp) hrun hok hquiet).head rfl

/-- **Stays deleted.** In every sequence of operations, from any contents of the
backends, in which each deletion reaches the backends that have the credential,
what was deleted is not loaded until it is saved again; and the condition is
exact: after a deletion that misses one, some next load finds the credential. -/
theorem stays_deleted (hP : P.Lawful) (s₀ : Stores) :
    (∀ es, (credentials P).Along (DeleteReaches P) s₀ es → StaysDeleted P s₀ es) ∧
    (∀ es e s, (credentials P).run s₀ es = some s → ¬ DeleteReaches P s e →
      ∃ load, ¬ StaysDeleted P s₀ (es ++ [e, load])) := by
  constructor
  · rintro es hC pre a keychain io post rest s rfl hpre hok hquiet
    have hdelete := (Lts.along_append.mp (Lts.along_append.mp hC).1).2 s hpre
    have hgone := (gone_next_iff hP hok).mpr (hdelete.head rfl)
    exact (gone_inductive hP a).along hgone (Lts.along_of_forall_mem fun e he _ => hquiet e he)
      fun _ e _ hI _ _ => hI.loadsNothing e
  · intro es e s hrun hC
    cases e with
    | save => exact absurd trivial hC
    | load => exact absurd trivial hC
    | delete a keychain io =>
        refine not_staysDeleted hP hrun (deleteCredential_ok_iff.mpr ?_) hC
        cases keychain with
        | available => exact .inl rfl
        | noEntry => exact .inl rfl
        | failed => exact .inr fun hfails => hC fun hdone => absurd hfails hdone

/-- Without the condition the promise fails: saved to the file while the keychain
was out of order, deleted once it is back and says `NoEntry`, loaded again. -/
theorem stays_deleted_fails :
    ¬ ∀ P : Platform, P.Lawful → ∀ s₀ es, StaysDeleted P s₀ es := by
  intro h
  have hstays := h plain plain_lawful empty [saveFallback "s3cr3t",
    .delete "active-credentials" .noEntry .healthy, .load "active-credentials" .noEntry .healthy]
  have hload := (hstays [saveFallback "s3cr3t"] "active-credentials" .noEntry .healthy
    [.load "active-credentials" .noEntry .healthy] [] _ rfl rfl rfl (by simp [Saves])).head rfl
  have hentry : encryptEntry plain zeroNonce "s3cr3t" = some _ := rfl
  exact hload rfl "s3cr3t" (loadCredential_eq_some.mpr
    (.inr ⟨rfl, rfl, loadable_saveToFile plain_lawful hentry none "active-credentials"⟩))

/-- Deleted while the keychain is still out of order, it stays deleted. -/
theorem stays_deleted_fallback : StaysDeleted plain empty [saveFallback "s3cr3t",
    .delete "active-credentials" .failed .healthy,
    .load "active-credentials" .noEntry .healthy] :=
  (stays_deleted plain_lawful empty).1 _
    (.cons trivial rfl (.cons (fun _ => ⟨rfl, .inl rfl⟩) rfl (.cons trivial rfl trivial)))

/-! ## The last save wins -/

/-- The backends, and the value of each account's most recent save that
returned `Ok`. -/
structure Tracked where
  stores : Stores
  latest : String → Option String

/-- A step and what it makes the most recent value. -/
def track (P : Platform) (t : Tracked) : Event → Tracked
  | .save account value keychain io nonce =>
      { stores := next P t.stores (.save account value keychain io nonce)
        latest := if (saveCredential P keychain io nonce t.stores account value).1 = .ok () then
            update t.latest account (some value)
          else t.latest }
  | e => { t with stores := next P t.stores e }

/-- Sequences of operations, with the most recent values. -/
def tracked (P : Platform) : Lts Tracked Event where
  init t := t = ⟨empty, fun _ => none⟩
  step t e := some (track P t e)

/-- Saves and loads with working file operations and a keychain that is available
or fails. -/
def Healthy : Event → Prop
  | .save _ _ keychain io _ | .load _ keychain io => keychain ≠ .noEntry ∧ io = .healthy
  | .delete _ _ _ => False

/-- A load returns nothing or the most recent value. -/
def LoadsLatest (P : Platform) (t : Tracked) : Event → Prop
  | .load account keychain io => ∀ value,
      loadCredential P keychain io t.stores account = .ok (some value) →
      t.latest account = some value
  | _ => True

/-- A save that succeeds finds no other value of the account in the backend it
does not write. -/
def OtherBackendAgrees (P : Platform) (t : Tracked) : Event → Prop
  | .save account value keychain _ nonce =>
      if keychain = .available then
        ∀ old, loadable P t.stores.file account = some old → old = value
      else encryptEntry P nonce value ≠ none →
        ∀ old, t.stores.keychain account = some old → old = value
  | _ => True

/-- Both backends have nothing but most recent values. -/
def Latest (P : Platform) (t : Tracked) : Prop :=
  ∀ account value, (t.stores.keychain account = some value ∨
    loadable P t.stores.file account = some value) → t.latest account = some value

theorem Latest.loadsLatest {t : Tracked} (h : Latest P t) (e : Event) : LoadsLatest P t e := by
  cases e with
  | load account keychain io =>
      intro value hload
      rcases loadCredential_eq_some.mp hload with hkey | ⟨-, -, hfile⟩
      · exact h account value (.inl (getPassword_eq_some.mp hkey).2)
      · exact h account value (.inr hfile)
  | save => trivial
  | delete => trivial

theorem saveCredential_fallback {keychain : Keychain} (hne : keychain ≠ .available) (io : Io)
    (nonce : Nonce) (account value : String) :
    saveCredential P keychain io nonce s account value =
      ((saveToFile P io nonce s.file account value).1,
        { s with file := (saveToFile P io nonce s.file account value).2 }) := by
  cases keychain with
  | available => exact absurd rfl hne
  | noEntry => rfl
  | failed => rfl

/-- A save to the keychain leaves most recent values, if the file has no other. -/
theorem Latest.save_available {t : Tracked} {io : Io} {nonce : Nonce} (h : Latest P t)
    (hC : OtherBackendAgrees P t (.save b x .available io nonce)) :
    Latest P (track P t (.save b x .available io nonce)) := by
  intro account value hhas
  simp only [OtherBackendAgrees, if_true] at hC
  simp only [track, next, saveCredential, Keychain.setPassword, if_true] at hhas ⊢
  by_cases hne : account = b
  · subst hne
    rw [update_self] at hhas ⊢
    exact hhas.elim id fun hfile => congrArg some (hC value hfile).symm
  · rw [update_of_ne hne] at hhas ⊢
    exact h account value hhas

/-- A save to the file leaves most recent values, if the keychain has no other. -/
theorem Latest.save_fallback (hP : P.Lawful) {t : Tracked} {keychain : Keychain} {nonce : Nonce}
    (h : Latest P t) (hne : keychain ≠ .available)
    (hC : OtherBackendAgrees P t (.save b x keychain .healthy nonce)) :
    Latest P (track P t (.save b x keychain .healthy nonce)) := by
  intro account value hhas
  simp only [OtherBackendAgrees, if_neg hne] at hC
  simp only [track, next, saveCredential_fallback hne] at hhas ⊢
  cases hentry : encryptEntry P nonce x with
  | none =>
      simp only [saveToFile, hentry] at hhas ⊢
      exact h account value hhas
  | some entry =>
      obtain ⟨hok, -, hothers⟩ := saveToFile_healthy hP hentry t.stores.file b
      rw [if_pos hok]
      by_cases heq : account = b
      · subst heq
        rw [loadable_saveToFile hP hentry] at hhas
        rw [update_self]
        exact hhas.elim (fun hkey => congrArg some (hC (by simp [hentry]) value hkey).symm) id
      · rw [loadable_congr (hothers account heq)] at hhas
        rw [update_of_ne heq]
        exact h account value hhas

theorem latest_inductive (hP : P.Lawful) :
    (tracked P).Inductive (fun t e => Healthy e ∧ OtherBackendAgrees P t e) (Latest P) := by
  rintro t e t' hI ⟨he, hC⟩ hstep
  obtain rfl : track P t e = t' := Option.some.inj hstep
  cases e with
  | save account value keychain io nonce =>
      obtain ⟨-, rfl⟩ := he
      by_cases hne : keychain = .available
      · subst hne
        exact hI.save_available hC
      · exact hI.save_fallback hP hne hC
  | load => exact hI
  | delete => exact he.elim

/-- A save that leaves another value behind is followed by a load that returns it. -/
theorem not_loadsLatest_of_disagrees (hP : P.Lawful) {t : Tracked} {e : Event} (he : Healthy e)
    (hC : ¬ OtherBackendAgrees P t e) :
    ∃ load, Healthy load ∧ ¬ LoadsLatest P (track P t e) load := by
  cases e with
  | save account value keychain io nonce =>
      obtain ⟨-, rfl⟩ := he
      by_cases hne : keychain = .available
      · -- saved to the keychain: once it fails, the file's older value is loaded
        subst hne
        simp only [OtherBackendAgrees, if_true, not_forall] at hC
        obtain ⟨old, hold, hother⟩ := hC
        refine ⟨.load account .failed .healthy, ⟨by simp, rfl⟩, fun hload => ?_⟩
        have hlatest := hload old (loadCredential_eq_some.mpr (.inr ⟨rfl, rfl, hold⟩))
        simp only [track, saveCredential, Keychain.setPassword, if_true, update_self] at hlatest
        exact hother (Option.some.inj hlatest).symm
      · -- saved to the file: once the keychain is back, its older value is loaded
        simp only [OtherBackendAgrees, if_neg hne, Classical.not_imp, not_forall] at hC
        obtain ⟨hencrypts, old, hold, hother⟩ := hC
        obtain ⟨entry, hentry⟩ := Option.ne_none_iff_exists'.mp hencrypts
        refine ⟨.load account .available .healthy, ⟨by simp, rfl⟩, fun hload => ?_⟩
        have hkey : (track P t (.save account value keychain .healthy nonce)).stores.keychain
            account = some old := by
          simpa [track, next, saveCredential_fallback hne] using hold
        have hlatest := hload old (loadCredential_eq_some.mpr (.inl hkey))
        simp only [track, saveCredential_fallback hne,
          (saveToFile_healthy hP hentry t.stores.file account).1, if_true, update_self] at hlatest
        exact hother (Option.some.inj hlatest).symm
  | load => exact absurd trivial hC
  | delete => exact absurd trivial hC

/-- **The last save wins.** In every sequence of saves and loads from empty
backends, with working files and a keychain that is available or fails, in which
no save leaves another value in the backend it does not write, a load returns
the most recent value or nothing; and the condition is exact. -/
theorem last_save_wins (hP : P.Lawful) :
    (∀ es, (∀ e ∈ es, Healthy e) →
      (tracked P).Along (OtherBackendAgrees P) ⟨empty, fun _ => none⟩ es →
      (tracked P).Along (LoadsLatest P) ⟨empty, fun _ => none⟩ es) ∧
    (∀ es e t, (tracked P).run ⟨empty, fun _ => none⟩ es = some t → Healthy e →
      ¬ OtherBackendAgrees P t e → ∃ load, Healthy load ∧
        ¬ (tracked P).Along (LoadsLatest P) ⟨empty, fun _ => none⟩ (es ++ [e, load])) := by
  constructor
  · intro es hhealthy hC
    have hempty : Latest P ⟨empty, fun _ => none⟩ := by
      rintro account value (hkey | hfile)
      · simp [empty] at hkey
      · rw [loadable_of_rawEntry (by simp [rawEntry, readStore, empty])] at hfile
        simp at hfile
    have hall := (Lts.along_of_forall_mem fun e he _ => hhealthy e he).and hC
    exact (latest_inductive hP).along hempty hall fun _ e _ hI _ _ => hI.loadsLatest e
  · intro es e t hrun he hC
    obtain ⟨load, hload, hstale⟩ := not_loadsLatest_of_disagrees hP he hC
    refine ⟨load, hload, fun halong => hstale ?_⟩
    exact (((Lts.along_append.mp halong).2 t hrun).tail rfl).head rfl

/-- Without the condition the promise fails: a newer value goes to the file while
the keychain is out of order, and the keychain comes back with the older one. -/
theorem last_save_wins_fails : ¬ ∀ P : Platform, P.Lawful → ∀ es, (∀ e ∈ es, Healthy e) →
    (tracked P).Along (LoadsLatest P) ⟨empty, fun _ => none⟩ es := by
  intro h
  have halong := h plain plain_lawful
    [.save "active-credentials" "old" .available .healthy zeroNonce, saveFallback "new",
      .load "active-credentials" .available .healthy] (by simp [Healthy, saveFallback])
  have hlatest := ((halong.tail rfl).tail rfl).head rfl "old" rfl
  exact absurd hlatest (by decide)

/-- Two saves while the keychain is out of order: the newer value is loaded. -/
theorem last_save_wins_fallback : (tracked plain).Along (LoadsLatest plain)
    ⟨empty, fun _ => none⟩ [saveFallback "old", saveFallback "new",
      .load "active-credentials" .available .healthy] := by
  refine (last_save_wins plain_lawful).1 _ (by simp [Healthy, saveFallback]) ?_
  exact .cons (fun _ _ h => by simp [empty] at h) rfl
    (.cons (fun _ _ h => by
        simp [track, saveFallback, next, saveCredential_fallback, empty] at h) rfl
      (.cons trivial rfl trivial))

end TopdeskMcp.Theorems.Credentials
