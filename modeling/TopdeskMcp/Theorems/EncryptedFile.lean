import TopdeskMcp.Theorems.Credentials
import Mathlib.Data.List.Induction

/-!
# The encrypted file as a map

The file is read, changed and written as a whole, and each entry in it is hex of a nonce
and a ciphertext. What its readers see is a map from accounts to values:

* `encryptedFile` is any sequence of operations on the file, `accountMap` the same
  sequence on a map, and the file `Represents` the map at every point
  (`encryptedFile_simulates`);
* `file_is_map` reads off it that a load returns the latest save;
* `failed_write_keeps_iff` is about operations that fail: the file is written in place,
  and two more steps can fail after that.
-/

namespace TopdeskMcp.Theorems.EncryptedFile

open TopdeskMcp TopdeskMcp.Credentials Credentials Trace Function

/-- An operation that may write the file. -/
inductive Write where
  | save (account value : String) (nonce : Nonce)
  | delete (account : String)

def Write.account : Write → String
  | .save account _ _ | .delete account => account

def Write.perform (P : Platform) (io : Io) (file : Option Bytes) : Write → Outcome Unit × Option Bytes
  | .save account value nonce => saveToFile P io nonce file account value
  | .delete account => deleteFromFile P io file account

inductive Op where
  | write (w : Write)
  | load (account : String)

def Op.account : Op → String
  | .write w => w.account
  | .load account => account

/-- The file after an operation, when nothing fails. -/
def next (P : Platform) (file : Option Bytes) : Op → Option Bytes
  | .write w => (w.perform P .healthy file).2
  | .load _ => file

/-- Any sequence of operations, from no file. -/
def encryptedFile (P : Platform) : Lts (Option Bytes) Op where
  init file := file = none
  step file op := some (next P file op)

/-- The map after an operation. A value that cannot be encrypted is not saved. -/
def nextMap (P : Platform) (m : String → Option String) : Op → String → Option String
  | .write (.save account value nonce) =>
      if encryptEntry P nonce value = none then m else update m account (some value)
  | .write (.delete account) => update m account none
  | .load _ => m

/-- The same sequence on a map, from the empty one. -/
def accountMap (P : Platform) : Lts (String → Option String) Op where
  init m := m = fun _ => none
  step m op := some (nextMap P m op)

/-- Every load returns what the map holds. -/
def Represents (P : Platform) (file : Option Bytes) (m : String → Option String) : Prop :=
  ∀ account, loadFromFile P .healthy file account = .ok (m account)

/-- The operation settles what the account holds. -/
def Settles (P : Platform) (account : String) : Op → Prop
  | .write (.save other value nonce) => other = account ∧ encryptEntry P nonce value ≠ none
  | .write (.delete other) => other = account
  | .load _ => False

/-- The value of the latest save of the account, with no deletion after it. -/
def Latest (P : Platform) (ops : List Op) (account value : String) : Prop :=
  ∃ before nonce after, ops = before ++ .write (.save account value nonce) :: after ∧
    encryptEntry P nonce value ≠ none ∧ ∀ op ∈ after, ¬ Settles P account op

variable {P : Platform} {file file' : Option Bytes} {a b x : String}

/-! ## Loads and the entries they find -/

theorem loadFromFile_congr (h : rawEntry P file' a = rawEntry P file a) :
    loadFromFile P .healthy file' a = loadFromFile P .healthy file a := by
  have hlookup : (readStore P .healthy file').lookup a = (readStore P .healthy file).lookup a := h
  rw [loadFromFile, loadFromFile, hlookup]

theorem loadFromFile_none_iff :
    loadFromFile P .healthy file a = .ok none ↔ rawEntry P file a = none := by
  show _ ↔ (readStore P .healthy file).lookup a = none
  unfold loadFromFile
  cases (readStore P .healthy file).lookup a with
  | none => simp
  | some raw => cases hvalue : decryptEntry P a raw <;> simp [Outcome.bind, hvalue]

theorem loadFromFile_entry (hP : P.Lawful) {nonce : Nonce} {entry : String}
    (hentry : encryptEntry P nonce x = some entry) (h : rawEntry P file a = some entry) :
    loadFromFile P .healthy file a = .ok (some x) := by
  have hlookup : (readStore P .healthy file).lookup a = some entry := h
  simp only [loadFromFile, hlookup, decryptEntry_encryptEntry hP hentry, Outcome.bind]

/-- A deletion with nothing failing takes its entry out and no other. -/
theorem deleteFromFile_healthy (hP : P.Lawful) (file : Option Bytes) (account : String) :
    rawEntry P (deleteFromFile P .healthy file account).2 account = none ∧
      ∀ other, other ≠ account →
        rawEntry P (deleteFromFile P .healthy file account).2 other = rawEntry P file other := by
  unfold deleteFromFile
  dsimp only
  split
  · obtain ⟨-, hstore⟩ := writeStore_ok hP .healthy rfl file
      ((readStore P .healthy file).erase account)
    refine ⟨?_, ?_⟩
    · rw [hstore, AList.lookup_erase]
    · intro other hne
      rw [hstore, AList.lookup_erase_ne hne]
      rfl
  · rename_i hnone
    exact ⟨hnone, fun _ _ => rfl⟩

/-- An operation on one account leaves what loads of the others return. -/
theorem loadFromFile_next (hP : P.Lawful) (file : Option Bytes) {op : Op} (h : a ≠ op.account) :
    loadFromFile P .healthy (next P file op) a = loadFromFile P .healthy file a := by
  match op with
  | .load _ => rfl
  | .write (.delete account) =>
      exact loadFromFile_congr ((deleteFromFile_healthy hP file account).2 a h)
  | .write (.save account value nonce) =>
      apply loadFromFile_congr
      cases hentry : encryptEntry P nonce value with
      | none => simp only [next, Write.perform, saveToFile, hentry]
      | some entry => exact (saveToFile_healthy hP hentry file account).2.2 a h

/-! ## The file and the map -/

theorem represents_next (hP : P.Lawful) {m : String → Option String} (h : Represents P file m)
    (op : Op) : Represents P (next P file op) (nextMap P m op) := by
  intro account
  by_cases hother : account ≠ op.account
  · -- another account: neither side moves
    rw [loadFromFile_next hP file hother, h account]
    match op with
    | .load _ => rfl
    | .write (.delete other) =>
        have hne : account ≠ other := hother
        show _ = Outcome.ok (update m other none account)
        rw [update_of_ne hne]
    | .write (.save other value nonce) =>
        have hne : account ≠ other := hother
        show _ = Outcome.ok ((if encryptEntry P nonce value = none then m else _) account)
        split
        · rfl
        · rw [update_of_ne hne]
  · obtain rfl := not_not.mp hother
    match op with
    | .load account => exact h account
    | .write (.delete account) =>
        show _ = Outcome.ok (update m account none account)
        rw [update_self]
        exact loadFromFile_none_iff.mpr (deleteFromFile_healthy hP file account).1
    | .write (.save account value nonce) =>
        show loadFromFile P .healthy (saveToFile P .healthy nonce file account value).2 account =
          Outcome.ok ((if encryptEntry P nonce value = none then m else _) account)
        cases hentry : encryptEntry P nonce value with
        | none =>
            rw [if_pos rfl]
            simpa only [saveToFile, hentry] using h account
        | some entry =>
            rw [if_neg (by simp), update_self]
            exact loadFromFile_entry hP hentry (saveToFile_healthy hP hentry file account).2.1

/-- Operation by operation, the file goes where the map goes. -/
theorem encryptedFile_simulates (hP : P.Lawful) :
    (encryptedFile P).Simulates (accountMap P) (fun _ _ => True) (Represents P) := by
  intro file m op file' h _ hstep
  obtain rfl : next P file op = file' := Option.some.inj hstep
  exact ⟨nextMap P m op, rfl, represents_next hP h op⟩

theorem represents_empty (P : Platform) : Represents P none fun _ => none := by
  intro account
  exact loadFromFile_none_iff.mpr (by simp [rawEntry, readStore])

/-! ## The latest save -/

theorem latest_nil : ¬ Latest P [] a x := by
  rintro ⟨before, nonce, after, h, -⟩
  simp at h

/-- The last operation is the save, or it leaves the account alone. -/
theorem latest_concat (ops : List Op) {op : Op} : Latest P (ops ++ [op]) a x ↔
    (∃ nonce, op = .write (.save a x nonce) ∧ encryptEntry P nonce x ≠ none) ∨
      (¬ Settles P a op ∧ Latest P ops a x) := by
  constructor
  · rintro ⟨before, nonce, after, heq, hentry, hquiet⟩
    rcases List.eq_nil_or_concat after with rfl | ⟨after, last, rfl⟩
    · obtain ⟨-, hlast⟩ := List.append_inj' heq rfl
      exact .inl ⟨nonce, (List.cons.inj hlast).1, hentry⟩
    · rw [List.concat_eq_append, ← List.cons_append, ← List.append_assoc] at heq
      obtain ⟨hops, hlast⟩ := List.append_inj' heq rfl
      obtain ⟨rfl, -⟩ := List.cons.inj hlast
      refine .inr ⟨hquiet op (by simp), before, nonce, after, hops, hentry, ?_⟩
      intro op' hop'
      exact hquiet op' (by simp [hop'])
  · rintro (⟨nonce, rfl, hentry⟩ | ⟨hquiet, before, nonce, after, rfl, hentry, hafter⟩)
    · exact ⟨ops, nonce, [], rfl, hentry, by simp⟩
    · refine ⟨before, nonce, after ++ [op], by simp, hentry, ?_⟩
      intro op' hop'
      rcases List.mem_append.mp hop' with hop' | hop'
      · exact hafter op' hop'
      · rwa [List.mem_singleton.mp hop']

theorem nextMap_of_not_settles {m : String → Option String} {op : Op} (h : ¬ Settles P a op) :
    nextMap P m op a = m a := by
  match op with
  | .load _ => rfl
  | .write (.delete account) => exact update_of_ne (fun heq => h heq.symm) ..
  | .write (.save account value nonce) =>
      show (if encryptEntry P nonce value = none then m else _) a = m a
      split
      · rfl
      · rename_i hentry
        exact update_of_ne (fun heq => h ⟨heq.symm, hentry⟩) ..

/-- The map holds the latest saves, and nothing else. -/
theorem accountMap_latest {ops : List Op} {m : String → Option String}
    (hrun : (accountMap P).run (fun _ => none) ops = some m) :
    m a = some x ↔ Latest P ops a x := by
  induction ops using List.reverseRecOn generalizing m with
  | nil =>
      obtain rfl := Option.some.inj hrun
      simp [latest_nil]
  | append_singleton ops op ih =>
      obtain ⟨before, hbefore, hlast⟩ := Lts.run_append_eq_some.mp hrun
      obtain rfl : nextMap P before op = m := Option.some.inj hlast
      rw [latest_concat]
      by_cases hsettles : Settles P a op
      · match op, hsettles with
        | .write (.delete _), rfl => simp [nextMap, Settles]
        | .write (.save _ value nonce), ⟨rfl, hentry⟩ =>
            have hset : nextMap P before (.write (.save a value nonce)) a = some value := by
              simp only [nextMap, if_neg hentry, update_self]
            rw [hset]
            constructor
            · intro h
              obtain rfl := Option.some.inj h
              exact .inl ⟨nonce, rfl, hentry⟩
            · rintro (⟨_, heq, -⟩ | ⟨hquiet, -⟩)
              · cases heq
                rfl
              · exact absurd ⟨rfl, hentry⟩ hquiet
      · rw [nextMap_of_not_settles hsettles, ih hbefore]
        constructor
        · intro h
          exact .inr ⟨hsettles, h⟩
        · rintro (⟨nonce, rfl, hentry⟩ | ⟨-, h⟩)
          · exact absurd ⟨rfl, hentry⟩ hsettles
          · exact h

/-- **The file is a map.** After any sequence of operations from no file, a load returns the
value of the account's latest save that no deletion follows, and nothing when there is none;
and no operation on another account changes that. -/
theorem file_is_map (hP : P.Lawful) (ops : List Op) (file : Option Bytes)
    (hrun : (encryptedFile P).run none ops = some file) (account : String) :
    (∀ value, loadFromFile P .healthy file account = .ok (some value) ↔
      Latest P ops account value) ∧
    ((∀ value, ¬ Latest P ops account value) →
      loadFromFile P .healthy file account = .ok none) ∧
    (∀ op file', op.account ≠ account → (encryptedFile P).run none (ops ++ [op]) = some file' →
      loadFromFile P .healthy file' account = loadFromFile P .healthy file account) := by
  obtain ⟨m, hm, hsame⟩ := (encryptedFile_simulates hP).run (represents_empty P)
    (Lts.along_of_forall_mem fun _ _ _ => trivial) hrun
  have hlatest : ∀ value, m account = some value ↔ Latest P ops account value :=
    fun _ => accountMap_latest hm
  refine ⟨?_, ?_, ?_⟩
  · intro value
    rw [hsame account, ← hlatest value, Outcome.ok.injEq]
  · intro hnone
    rw [hsame account]
    cases hvalue : m account with
    | none => rfl
    | some value => exact absurd ((hlatest value).mp hvalue) (hnone value)
  · intro op file' hother hrun'
    obtain ⟨_, hbefore, hlast⟩ := Lts.run_append_eq_some.mp hrun'
    obtain rfl := Option.some.inj (hrun.symm.trans hbefore)
    obtain rfl : next P file op = file' := Option.some.inj hlast
    exact loadFromFile_next hP file hother.symm

/-- Two accounts, one of them saved twice and the other one deleted. -/
theorem file_is_map_two : ∃ file, (encryptedFile plain).run none
      [.write (.save "alice" "old" zeroNonce), .write (.save "bob" "s3cr3t" zeroNonce),
        .write (.save "alice" "new" zeroNonce), .write (.delete "bob")] = some file ∧
    loadFromFile plain .healthy file "alice" = .ok (some "new") ∧
    loadFromFile plain .healthy file "bob" = .ok none := by
  obtain ⟨file, hrun⟩ : ∃ file, (encryptedFile plain).run none
      [.write (.save "alice" "old" zeroNonce), .write (.save "bob" "s3cr3t" zeroNonce),
        .write (.save "alice" "new" zeroNonce), .write (.delete "bob")] = some file := ⟨_, rfl⟩
  refine ⟨file, hrun, ?_, ?_⟩
  · refine ((file_is_map plain_lawful _ file hrun "alice").1 "new").mpr ?_
    exact ⟨[.write (.save "alice" "old" zeroNonce), .write (.save "bob" "s3cr3t" zeroNonce)],
      zeroNonce, [.write (.delete "bob")], rfl, by simp [encryptEntry, plain],
      by simp [Settles]⟩
  · refine (file_is_map plain_lawful _ file hrun "bob").2.1 fun value hlatest => ?_
    rcases (latest_concat [_, _, _]).mp hlatest with ⟨_, h, -⟩ | ⟨hquiet, -⟩
    · simp at h
    · exact hquiet rfl

/-! ## Operations that fail -/

/-- The store that an operation writes, when it comes to that. -/
def Write.store (P : Platform) (io : Io) (file : Option Bytes) : Write → Option StringMap
  | .save account value nonce =>
      (encryptEntry P nonce value).map fun entry => (readStore P io file).insert account entry
  | .delete account =>
      ((readStore P io file).lookup account).map fun _ => (readStore P io file).erase account

/-- The account has the value already, and no other entry gets lost: the file was read before
it was written over, or it has no other. -/
def Repeats (P : Platform) (io : Io) (file : Option Bytes) : Write → Prop
  | .save account value _ => loadFromFile P .healthy file account = .ok (some value) ∧
      (io.readable = true ∨
        ∀ other, other ≠ account → loadFromFile P .healthy file other = .ok none)
  | .delete _ => False

/-- No entry is found in the file. -/
def NoEntries (P : Platform) (file : Option Bytes) : Prop :=
  ∀ account, loadFromFile P .healthy file account = .ok none

/-- The operation does not come to writing, or what fails is the directory or the opening of
the file, or there was nothing to lose, or nothing new was written. -/
def Harmless (P : Platform) (io : Io) (file : Option Bytes) (w : Write) : Prop :=
  ∀ store, w.store P io file = some store →
    match io.fault with
    | none | some .createDirAll | some .create => True
    | some (.write kept) =>
        if kept < (Utf8.encode (P.toStr store)).length then NoEntries P file
        else Repeats P io file w
    | some .setDirPermissions | some .setFilePermissions => Repeats P io file w

/-- If the operation fails, every load returns what it returned before. -/
def FailureKeeps (P : Platform) (io : Io) (file : Option Bytes) (w : Write) : Prop :=
  ∀ error, (w.perform P io file).1 = .err error → ∀ account,
    loadFromFile P .healthy (w.perform P io file).2 account = loadFromFile P .healthy file account

variable {io : Io} {w : Write} {store : StringMap}

theorem perform_of_store (h : w.store P io file = some store) :
    w.perform P io file = writeStore P io file store := by
  cases w with
  | save account value nonce =>
      obtain ⟨entry, hentry, rfl⟩ := Option.map_eq_some_iff.mp h
      simp only [Write.perform, saveToFile, hentry]
  | delete account =>
      obtain ⟨raw, hraw, rfl⟩ := Option.map_eq_some_iff.mp h
      simp only [Write.perform, deleteFromFile, hraw]

theorem perform_of_no_store (h : w.store P io file = none) :
    (w.perform P io file).2 = file := by
  cases w with
  | save account value nonce =>
      have hentry := Option.map_eq_none_iff.mp h
      simp only [Write.perform, saveToFile, hentry]
  | delete account =>
      have hraw := Option.map_eq_none_iff.mp h
      simp only [Write.perform, deleteFromFile, hraw]

/-- A file that is cut short has no entries. -/
theorem loadFromFile_cut (hP : P.Lawful) {kept : Nat}
    (hkept : kept < (Utf8.encode (P.toStr store)).length) (account : String) :
    loadFromFile P .healthy (some ((Utf8.encode (P.toStr store)).take kept)) account =
      .ok none := by
  refine loadFromFile_none_iff.mpr ?_
  simp [rawEntry, readStore, Io.healthy, hP.fromStr_prefix store kept hkept]

theorem repeats_of_save (hP : P.Lawful) {account value entry : String} {nonce : Nonce}
    (hentry : encryptEntry P nonce value = some entry) :
    (∀ other, loadFromFile P .healthy
        (some (Utf8.encode (P.toStr ((readStore P io file).insert account entry)))) other =
          loadFromFile P .healthy file other) ↔
      Repeats P io file (.save account value nonce) := by
  have hwritten := rawEntry_written hP ((readStore P io file).insert account entry)
  have hself := loadFromFile_entry hP hentry ((hwritten account).trans (AList.lookup_insert _))
  have hothers : ∀ other, other ≠ account → rawEntry P
      (some (Utf8.encode (P.toStr ((readStore P io file).insert account entry)))) other =
        if io.readable then rawEntry P file other else none := by
    intro other hne
    rw [hwritten, AList.lookup_insert_ne hne, readStore_lookup]
  constructor
  · intro h
    refine ⟨(h account).symm.trans hself, ?_⟩
    cases hread : io.readable with
    | true => exact .inl rfl
    | false =>
        refine .inr fun other hne => ?_
        rw [← h other, loadFromFile_none_iff, hothers other hne, hread]
        rfl
  · rintro ⟨hvalue, hread⟩ other
    by_cases hne : other = account
    · rw [hne, hself, hvalue]
    · rcases hread with hread | hnone
      · refine loadFromFile_congr ?_
        rw [hothers other hne, if_pos hread]
      · rw [hnone other hne, loadFromFile_none_iff, hothers other hne]
        split
        · exact loadFromFile_none_iff.mp (hnone other hne)
        · rfl

/-- A file that is written to its end loads as before exactly when nothing new was written. -/
theorem repeats_iff (hP : P.Lawful) (h : w.store P io file = some store) :
    (∀ account, loadFromFile P .healthy (some (Utf8.encode (P.toStr store))) account =
      loadFromFile P .healthy file account) ↔ Repeats P io file w := by
  cases w with
  | save account value nonce =>
      obtain ⟨entry, hentry, rfl⟩ := Option.map_eq_some_iff.mp h
      exact repeats_of_save hP hentry
  | delete account =>
      obtain ⟨raw, hraw, rfl⟩ := Option.map_eq_some_iff.mp h
      refine ⟨fun hsame => ?_, False.elim⟩
      -- the entry was there, and now it is not
      have hgone : rawEntry P (some (Utf8.encode (P.toStr ((readStore P io file).erase account))))
          account = none := by
        rw [rawEntry_written hP, AList.lookup_erase]
      have hbefore := (hsame account).symm.trans (loadFromFile_none_iff.mpr hgone)
      rw [loadFromFile_none_iff] at hbefore
      rw [readStore_lookup, hbefore] at hraw
      simp at hraw

/-- **A failed write.** An operation that fails leaves every load as it was if and only if it
fails before the file is opened for writing, or cuts short a file without entries, or had
written to the end what was there before. -/
theorem failed_write_keeps_iff (hP : P.Lawful) (io : Io) (file : Option Bytes) (w : Write) :
    FailureKeeps P io file w ↔ Harmless P io file w := by
  cases hstore : w.store P io file with
  | none =>
      refine ⟨fun _ store h => by simp [hstore] at h, fun _ error _ account => ?_⟩
      rw [perform_of_no_store hstore]
  | some store =>
      have hharmless : ∀ p : StringMap → Prop,
          (∀ store', w.store P io file = some store' → p store') ↔ p store := by
        intro p
        rw [hstore]
        exact ⟨fun h => h store rfl, fun h store' heq => Option.some.inj heq ▸ h⟩
      unfold FailureKeeps Harmless
      rw [hharmless, perform_of_store hstore]
      unfold writeStore
      cases hfault : io.fault with
      | none => exact ⟨fun _ => trivial, fun _ error h => by simp at h⟩
      | some fault =>
          have herr : ∀ p : Prop, (∀ error, (.err .io : Outcome Unit) = .err error → p) ↔ p :=
            fun p => ⟨fun h => h .io rfl, fun h _ _ => h⟩
          cases fault with
          | createDirAll => exact ⟨fun _ => trivial, fun _ _ _ _ => rfl⟩
          | create => exact ⟨fun _ => trivial, fun _ _ _ _ => rfl⟩
          | setDirPermissions => exact (herr _).trans (repeats_iff hP hstore)
          | setFilePermissions => exact (herr _).trans (repeats_iff hP hstore)
          | write kept =>
              refine (herr _).trans ?_
              dsimp only
              split
              · rename_i hkept
                simp only [loadFromFile_cut hP hkept]
                exact ⟨fun h account => (h account).symm, fun h account => (h account).symm⟩
              · rename_i hkept
                rw [List.take_of_length_le (Nat.le_of_not_lt hkept)]
                exact repeats_iff hP hstore

/-- A file in which one credential is saved. -/
def savedFile : Option Bytes :=
  (saveToFile plain .healthy zeroNonce none "active-credentials" "old").2

def saveNew : Write := .save "active-credentials" "new" zeroNonce

/-- The file system fails at one point of an operation. -/
def failing (fault : WriteFault) : Io := { readable := true, fault := some fault }

theorem length_toStr_pos (store : StringMap) : 0 < (Utf8.encode (plain.toStr store)).length := by
  have htext : (plain.toStr store).toList =
      '{' :: (Json.writeMembers (store.entries.map fun e => (e.1, e.2)) ++ ['}']) :=
    String.toList_ofList
  have hpos := '{'.utf8Size_pos
  rw [Utf8.encode, htext, Utf8.encodeChars_cons, List.length_append, String.length_utf8EncodeChar]
  omega

/-- The old credential is gone when the disk is full, and replaced when only the permissions
could not be set; both times the operation reports that it failed. -/
theorem failed_write_fails :
    loadFromFile plain .healthy savedFile "active-credentials" = .ok (some "old") ∧
    ¬ FailureKeeps plain (failing (.write 0)) savedFile saveNew ∧
    ¬ FailureKeeps plain (failing .setFilePermissions) savedFile saveNew := by
  obtain ⟨old, hold⟩ : ∃ entry, encryptEntry plain zeroNonce "old" = some entry := ⟨_, rfl⟩
  obtain ⟨new, hnew⟩ : ∃ entry, encryptEntry plain zeroNonce "new" = some entry := ⟨_, rfl⟩
  have hbefore : loadFromFile plain .healthy savedFile "active-credentials" = .ok (some "old") :=
    loadFromFile_entry plain_lawful hold
      (saveToFile_healthy plain_lawful hold none "active-credentials").2.1
  have hstore : ∀ fault, saveNew.store plain (failing fault) savedFile = some
      ((readStore plain (failing fault) savedFile).insert "active-credentials" new) := by
    intro fault
    simp only [saveNew, Write.store, hnew, Option.map_some]
  refine ⟨hbefore, ?_, ?_⟩
  · intro h
    have hsame := h .io rfl "active-credentials"
    rw [perform_of_store (hstore _), hbefore] at hsame
    simp only [writeStore, failing] at hsame
    rw [loadFromFile_cut plain_lawful (length_toStr_pos _)] at hsame
    simp at hsame
  · intro h
    have hsame := h .io rfl "active-credentials"
    rw [perform_of_store (hstore _), hbefore] at hsame
    simp only [writeStore, failing] at hsame
    rw [loadFromFile_entry plain_lawful hnew ((rawEntry_written plain_lawful _ _).trans
      (AList.lookup_insert _))] at hsame
    simp at hsame

/-- A directory that cannot be created leaves the file alone. -/
theorem failed_write_keeps_iff_directory :
    FailureKeeps plain (failing .createDirAll) savedFile saveNew :=
  (failed_write_keeps_iff plain_lawful (failing .createDirAll) savedFile saveNew).mpr
    fun _ _ => trivial

end TopdeskMcp.Theorems.EncryptedFile
