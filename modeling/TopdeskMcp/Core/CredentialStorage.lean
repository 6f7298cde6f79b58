import TopdeskMcp.Lib.HashMap
import TopdeskMcp.Lib.Hex
import TopdeskMcp.Lib.Trace
import TopdeskMcp.Lib.Utf8

/-!
# Credential storage (`core/credential_storage.rs`)

A credential lives in the OS keychain or, when the keychain answers with an
error, in an encrypted file: a JSON object from account names to
`nonce:ciphertext` in hex. Every operation asks the keychain first and decides
from its answer whether to go to the file.

* `toHex`, `fromHex`, `readStore`, `writeStore`, `saveToFile`, `loadFromFile`
  and `deleteFromFile` work on the file's bytes;
* `saveCredential`, `loadCredential` and `deleteCredential` choose a backend;
* `credentials` is the transition system of any sequence of operations, each
  with its own keychain answer, file faults and nonce.

What other crates do (`serde_json`, `aes-gcm`, `sha2`) is the parameter
`Platform`, and what the code relies on in them is `Platform.Lawful`. The home
directory does not change while the process runs.
-/

namespace TopdeskMcp

namespace Credentials

/-- `io`, `parseInt` and `fromUtf8` are errors of the standard library;
`message` is one the code words itself. -/
inductive Error where
  | io
  | parseInt
  | fromUtf8
  | message (text : String)
  deriving DecidableEq, Repr

/-- How a call ends: a `Result`, or a panic. -/
inductive Outcome (α : Type) where
  | ok (value : α)
  | err (error : Error)
  | panicked
  deriving DecidableEq, Repr

def Outcome.bind {α β : Type} : Outcome α → (α → Outcome β) → Outcome β
  | .ok value, f => f value
  | .err error, _ => .err error
  | .panicked, _ => .panicked

def Outcome.toOption {α : Type} : Outcome α → Option α
  | .ok value => some value
  | .err _ | .panicked => none

/-- A nonce of AES-256-GCM. -/
abbrev Nonce := { bytes : Bytes // bytes.length = 12 }

/-- The home directory, and the functions of other crates. -/
structure Platform where
  home : String
  sha256 : Bytes → Bytes
  encrypt : Bytes → Nonce → Bytes → Option Bytes
  decrypt : Bytes → Nonce → Bytes → Option Bytes
  fromStr : String → Option StringMap
  toStr : StringMap → String

/-- What the code relies on: JSON and AES-GCM read back what they wrote, and no
proper prefix of an object's text is an object. -/
structure Platform.Lawful (P : Platform) : Prop where
  decrypt_encrypt : ∀ key nonce plaintext ciphertext,
    P.encrypt key nonce plaintext = some ciphertext →
      P.decrypt key nonce ciphertext = some plaintext
  fromStr_toStr : ∀ store, ∃ store', P.fromStr (P.toStr store) = some store' ∧
    ∀ account, store'.lookup account = store.lookup account
  fromStr_prefix : ∀ store kept, kept < (Utf8.encode (P.toStr store)).length →
    (Utf8.decode ((Utf8.encode (P.toStr store)).take kept)).bind P.fromStr = none

/-- Where `write_store` fails, if it does; a failing write keeps some of the bytes. -/
inductive WriteFault where
  | createDirAll
  | create
  | write (kept : Nat)
  | setDirPermissions
  | setFilePermissions
  deriving DecidableEq, Repr

/-- How the file system serves one operation. -/
structure Io where
  readable : Bool
  fault : Option WriteFault
  deriving DecidableEq, Repr

def Io.healthy : Io := { readable := true, fault := none }

def serviceName : String := "topdesk-mcp"

def encryptionKey (P : Platform) : Bytes :=
  P.sha256 (Utf8.encode P.home ++ Utf8.encode serviceName)

/-! ## Hexadecimal text -/

def toHex (bytes : Bytes) : List Char :=
  bytes.flatMap fun b => [Hex.digit (b.toNat / 16), Hex.digit (b.toNat % 16)]

/-- `u8::from_str_radix` of two ASCII characters; it takes a leading plus sign. -/
def fromStrRadix16 (high low : Char) : Option UInt8 :=
  if high = '+' then (Hex.value low).map UInt8.ofNat
  else (Hex.value high).bind fun h => (Hex.value low).map fun l => UInt8.ofNat (16 * h + l)

/-- The loop of `from_hex`, one slice of two bytes at a time. Slicing inside a
character panics; a two-byte character is one slice, and no number. -/
def fromHexPairs : List Char → Outcome Bytes
  | [] => .ok []
  | high :: rest =>
      if high.utf8Size = 2 then .err .parseInt
      else if high.utf8Size ≠ 1 then .panicked
      else
        match rest with
        | [] => .panicked
        | low :: rest =>
            if low.utf8Size ≠ 1 then .panicked
            else
              match fromStrRadix16 high low with
              | none => .err .parseInt
              | some b => (fromHexPairs rest).bind fun bs => .ok (b :: bs)

def fromHex (input : List Char) : Outcome Bytes :=
  if (Utf8.encodeChars input).length % 2 ≠ 0 then .err (.message "odd-length hex string")
  else fromHexPairs input

/-! ## The encrypted file -/

/-- An unreadable or malformed file counts as empty. -/
def readStore (P : Platform) (io : Io) (file : Option Bytes) : StringMap :=
  if io.readable then ((file.bind Utf8.decode).bind P.fromStr).getD ∅ else ∅

def writeStore (P : Platform) (io : Io) (file : Option Bytes) (store : StringMap) :
    Outcome Unit × Option Bytes :=
  let contents := Utf8.encode (P.toStr store)
  match io.fault with
  | some .createDirAll | some .create => (.err .io, file)
  | some (.write kept) => (.err .io, some (contents.take kept))
  -- permissions come last: the error is reported, and the contents stay
  | some .setDirPermissions | some .setFilePermissions => (.err .io, some contents)
  | none => (.ok (), some contents)

/-- The file entry for a value: `nonce:ciphertext`. -/
def encryptEntry (P : Platform) (nonce : Nonce) (value : String) : Option String :=
  (P.encrypt (encryptionKey P) nonce (Utf8.encode value)).map fun ciphertext =>
    String.ofList (toHex nonce.1 ++ ':' :: toHex ciphertext)

def saveToFile (P : Platform) (io : Io) (nonce : Nonce) (file : Option Bytes)
    (account value : String) : Outcome Unit × Option Bytes :=
  match encryptEntry P nonce value with
  | none => (.err (.message "failed to encrypt credential"), file)
  | some entry => writeStore P io file ((readStore P io file).insert account entry)

/-- `str::split_once`. -/
def splitOnce (sep : Char) : List Char → Option (List Char × List Char)
  | [] => none
  | c :: cs =>
      if c = sep then some ([], cs)
      else (splitOnce sep cs).map fun parts => (c :: parts.1, parts.2)

/-- `load_from_file` once an entry is found. `Nonce::from_slice` panics on any
other length than 12. -/
def decryptEntry (P : Platform) (account raw : String) : Outcome String :=
  match splitOnce ':' raw.toList with
  | none => .err (.message s!"corrupt credential entry for '{account}'")
  | some (nonceHex, ciphertextHex) =>
      (fromHex nonceHex).bind fun nonceBytes =>
        if hlen : nonceBytes.length = 12 then
          (fromHex ciphertextHex).bind fun ciphertext =>
            match P.decrypt (encryptionKey P) ⟨nonceBytes, hlen⟩ ciphertext with
            | none => .err (.message s!"failed to decrypt credential for '{account}'")
            | some plaintext =>
                match Utf8.decode plaintext with
                | none => .err .fromUtf8
                | some value => .ok value
        else .panicked

def loadFromFile (P : Platform) (io : Io) (file : Option Bytes) (account : String) :
    Outcome (Option String) :=
  match (readStore P io file).lookup account with
  | none => .ok none
  | some raw => (decryptEntry P account raw).bind fun value => .ok (some value)

def deleteFromFile (P : Platform) (io : Io) (file : Option Bytes) (account : String) :
    Outcome Unit × Option Bytes :=
  let store := readStore P io file
  match store.lookup account with
  | some _ => writeStore P io file (store.erase account)
  | none => (.ok (), file)

/-! ## The keychain and the choice between the backends -/

/-- How the keychain serves one operation: it works, it says there is no entry,
or it fails otherwise. -/
inductive Keychain where
  | available
  | noEntry
  | failed
  deriving DecidableEq, Repr

/-- Both backends. -/
structure Stores where
  keychain : String → Option String
  file : Option Bytes

/-- `Entry::set_password`. -/
def Keychain.setPassword : Keychain → Bool
  | .available => true
  | .noEntry | .failed => false

/-- `Entry::get_password`. -/
def Keychain.getPassword : Keychain → Option String → Option String
  | .available, entry => entry
  | .noEntry, _ | .failed, _ => none

/-- `Entry::delete_credential`: `Ok` or `NoEntry`, as opposed to any other error. -/
def Keychain.deletes : Keychain → Bool
  | .available | .noEntry => true
  | .failed => false

/-- The entries after `Entry::delete_credential`. -/
def Keychain.erase (keychain : Keychain) (entries : String → Option String) (account : String) :
    String → Option String :=
  match keychain with
  | .available => Function.update entries account none
  | .noEntry | .failed => entries

def saveCredential (P : Platform) (keychain : Keychain) (io : Io) (nonce : Nonce) (s : Stores)
    (account value : String) : Outcome Unit × Stores :=
  if keychain.setPassword then
    (.ok (), { s with keychain := Function.update s.keychain account (some value) })
  else
    let saved := saveToFile P io nonce s.file account value
    (saved.1, { s with file := saved.2 })

/-- Any error of the keychain, `NoEntry` included, goes on to the file. -/
def loadCredential (P : Platform) (keychain : Keychain) (io : Io) (s : Stores)
    (account : String) : Outcome (Option String) :=
  match keychain.getPassword (s.keychain account) with
  | some password => .ok (some password)
  | none => loadFromFile P io s.file account

/-- Both `Ok` and `NoEntry` of the keychain end the deletion. -/
def deleteCredential (P : Platform) (keychain : Keychain) (io : Io) (s : Stores)
    (account : String) : Outcome Unit × Stores :=
  if keychain.deletes then
    (.ok (), { s with keychain := keychain.erase s.keychain account })
  else
    let deleted := deleteFromFile P io s.file account
    (deleted.1, { s with file := deleted.2 })

/-! ## Sequences of operations -/

inductive Event where
  | save (account value : String) (keychain : Keychain) (io : Io) (nonce : Nonce)
  | load (account : String) (keychain : Keychain) (io : Io)
  | delete (account : String) (keychain : Keychain) (io : Io)

def next (P : Platform) (s : Stores) : Event → Stores
  | .save account value keychain io nonce =>
      (saveCredential P keychain io nonce s account value).2
  | .load _ _ _ => s
  | .delete account keychain io => (deleteCredential P keychain io s account).2

def empty : Stores := { keychain := fun _ => none, file := none }

end Credentials

/-- Any sequence of operations on the two backends, from empty ones. -/
def credentials (P : Credentials.Platform) : Trace.Lts Credentials.Stores Credentials.Event where
  init s := s = Credentials.empty
  step s e := some (Credentials.next P s e)

namespace Credentials

/-! ## An entry reads back as the value it was made from -/

/-- A hex digit is one byte, and neither a sign nor the separator. -/
theorem hexDigit_plain {n : Nat} (h : n < 16) :
    (Hex.digit n).utf8Size = 1 ∧ Hex.digit n ≠ '+' ∧ Hex.digit n ≠ ':' := by
  have hall : ∀ n : Fin 16, (Hex.digit n).utf8Size = 1 ∧ Hex.digit n ≠ '+' ∧ Hex.digit n ≠ ':' := by
    decide
  exact hall ⟨n, h⟩

theorem fromStrRadix16_hexDigit (b : UInt8) :
    fromStrRadix16 (Hex.digit (b.toNat / 16)) (Hex.digit (b.toNat % 16)) = some b := by
  obtain ⟨hhigh, hlow⟩ := Hex.nibbles_lt b
  simp only [fromStrRadix16, (hexDigit_plain hhigh).2.1, if_false, Hex.value_digit hhigh,
    Hex.value_digit hlow, Option.bind_some, Option.map_some, Nat.div_add_mod, UInt8.ofNat_toNat]

theorem toHex_cons (b : UInt8) (bytes : Bytes) :
    toHex (b :: bytes) = Hex.digit (b.toNat / 16) :: Hex.digit (b.toNat % 16) :: toHex bytes := rfl

theorem fromHexPairs_toHex (bytes : Bytes) : fromHexPairs (toHex bytes) = .ok bytes := by
  induction bytes with
  | nil => rfl
  | cons b bytes ih =>
      obtain ⟨hhigh, hlow⟩ := Hex.nibbles_lt b
      simp [toHex_cons, fromHexPairs, (hexDigit_plain hhigh).1, (hexDigit_plain hlow).1,
        fromStrRadix16_hexDigit, ih, Outcome.bind]

theorem length_encodeChars_toHex (bytes : Bytes) :
    (Utf8.encodeChars (toHex bytes)).length = 2 * bytes.length := by
  induction bytes with
  | nil => rfl
  | cons b bytes ih =>
      obtain ⟨hhigh, hlow⟩ := Hex.nibbles_lt b
      simp only [toHex_cons, Utf8.encodeChars_cons, List.length_append, ih,
        String.length_utf8EncodeChar, (hexDigit_plain hhigh).1, (hexDigit_plain hlow).1,
        List.length_cons]
      omega

/-- `from_hex` inverts `to_hex`. -/
theorem fromHex_toHex (bytes : Bytes) : fromHex (toHex bytes) = .ok bytes := by
  have heven : 2 * bytes.length % 2 = 0 := by omega
  simp [fromHex, length_encodeChars_toHex, heven, fromHexPairs_toHex]

theorem colon_notMem_toHex (bytes : Bytes) : ':' ∉ toHex bytes := by
  induction bytes with
  | nil => simp [toHex]
  | cons b bytes ih =>
      obtain ⟨hhigh, hlow⟩ := Hex.nibbles_lt b
      simp [toHex_cons, ih, (hexDigit_plain hhigh).2.2.symm, (hexDigit_plain hlow).2.2.symm]

theorem splitOnce_append {sep : Char} {before after : List Char} (h : sep ∉ before) :
    splitOnce sep (before ++ sep :: after) = some (before, after) := by
  induction before with
  | nil => simp [splitOnce]
  | cons c before ih =>
      simp only [List.mem_cons, not_or] at h
      simp [splitOnce, Ne.symm h.1, ih h.2]

theorem decryptEntry_encryptEntry {P : Platform} (hP : P.Lawful) {nonce : Nonce}
    {value entry : String} (h : encryptEntry P nonce value = some entry) (account : String) :
    decryptEntry P account entry = .ok value := by
  obtain ⟨ciphertext, hcipher, rfl⟩ := Option.map_eq_some_iff.mp h
  simp [decryptEntry, splitOnce_append (colon_notMem_toHex _), fromHex_toHex, Outcome.bind,
    nonce.2, hP.decrypt_encrypt _ _ _ _ hcipher]

/-! ## What the operations leave in the file -/

/-- The raw entry that a read of the file finds. -/
def rawEntry (P : Platform) (file : Option Bytes) (account : String) : Option String :=
  (readStore P .healthy file).lookup account

theorem readStore_lookup (P : Platform) (io : Io) (file : Option Bytes) (account : String) :
    (readStore P io file).lookup account =
      if io.readable then rawEntry P file account else none := by
  unfold rawEntry readStore
  split <;> simp [Io.healthy]

theorem rawEntry_written {P : Platform} (hP : P.Lawful) (store : StringMap) (account : String) :
    rawEntry P (some (Utf8.encode (P.toStr store))) account = store.lookup account := by
  obtain ⟨store', hparse, hlookup⟩ := hP.fromStr_toStr store
  simp [rawEntry, readStore, Io.healthy, hparse, hlookup]

/-- A failing write leaves the file as it was, complete, or without any entry. -/
theorem rawEntry_writeStore {P : Platform} (hP : P.Lawful) (io : Io) (file : Option Bytes)
    (store : StringMap) :
    (writeStore P io file store).2 = file ∨
      (∀ account, rawEntry P (writeStore P io file store).2 account = store.lookup account) ∨
      ∀ account, rawEntry P (writeStore P io file store).2 account = none := by
  cases hfault : io.fault with
  | none =>
      refine .inr (.inl fun account => ?_)
      simpa [writeStore, hfault] using rawEntry_written hP _ _
  | some fault =>
      cases fault with
      | createDirAll => exact .inl (by simp [writeStore, hfault])
      | create => exact .inl (by simp [writeStore, hfault])
      | write kept =>
          -- what is cut short no longer parses, so the next read finds an empty store
          by_cases hkept : kept < (Utf8.encode (P.toStr store)).length
          · refine .inr (.inr fun account => ?_)
            simp [writeStore, hfault, rawEntry, readStore, Io.healthy,
              hP.fromStr_prefix store kept hkept]
          · refine .inr (.inl fun account => ?_)
            rw [← rawEntry_written hP store account]
            simp [writeStore, hfault, List.take_of_length_le (Nat.le_of_not_lt hkept)]
      | setDirPermissions =>
          refine .inr (.inl fun account => ?_)
          simpa [writeStore, hfault] using rawEntry_written hP _ _
      | setFilePermissions =>
          refine .inr (.inl fun account => ?_)
          simpa [writeStore, hfault] using rawEntry_written hP _ _

/-- Without a fault the file holds the store, whatever it held before. -/
theorem writeStore_ok {P : Platform} (hP : P.Lawful) (io : Io) (hfault : io.fault = none)
    (file : Option Bytes) (store : StringMap) :
    (writeStore P io file store).1 = .ok () ∧
      ∀ account, rawEntry P (writeStore P io file store).2 account = store.lookup account := by
  simp only [writeStore, hfault]
  exact ⟨trivial, rawEntry_written hP store⟩

/-- Saving one account leaves every other entry as it was, or loses it. -/
theorem rawEntry_saveToFile {P : Platform} (hP : P.Lawful) (io : Io) (nonce : Nonce)
    (file : Option Bytes) {account other : String} (value : String) (hne : other ≠ account) :
    rawEntry P (saveToFile P io nonce file account value).2 other = rawEntry P file other ∨
      rawEntry P (saveToFile P io nonce file account value).2 other = none := by
  unfold saveToFile
  split
  · exact .inl rfl
  · rename_i entry hentry
    rcases rawEntry_writeStore hP io file ((readStore P io file).insert account entry) with
      hkeep | hstore | hnone
    · exact .inl (by rw [hkeep])
    · -- an unreadable file counts as empty, and is written over as such
      rw [hstore, AList.lookup_insert_ne hne, readStore_lookup]
      split
      · exact .inl rfl
      · exact .inr rfl
    · exact .inr (hnone other)

/-- A save that can encrypt, with nothing failing, writes its entry and no other. -/
theorem saveToFile_healthy {P : Platform} (hP : P.Lawful) {nonce : Nonce} {value entry : String}
    (hentry : encryptEntry P nonce value = some entry) (file : Option Bytes) (account : String) :
    (saveToFile P .healthy nonce file account value).1 = .ok () ∧
      rawEntry P (saveToFile P .healthy nonce file account value).2 account = some entry ∧
      ∀ other, other ≠ account →
        rawEntry P (saveToFile P .healthy nonce file account value).2 other =
          rawEntry P file other := by
  obtain ⟨hok, hstore⟩ := writeStore_ok hP .healthy rfl file
    ((readStore P .healthy file).insert account entry)
  simp only [saveToFile, hentry]
  refine ⟨hok, ?_, ?_⟩
  · rw [hstore, AList.lookup_insert]
  · intro other hne
    rw [hstore, AList.lookup_insert_ne hne]
    rfl

/-- Deleting an account brings no entry about. -/
theorem rawEntry_deleteFromFile {P : Platform} (hP : P.Lawful) (io : Io) (file : Option Bytes)
    (account other : String) :
    rawEntry P (deleteFromFile P io file account).2 other = rawEntry P file other ∨
      rawEntry P (deleteFromFile P io file account).2 other = none := by
  unfold deleteFromFile
  dsimp only
  split
  · rcases rawEntry_writeStore hP io file ((readStore P io file).erase account) with
      hkeep | hstore | hnone
    · exact .inl (by rw [hkeep])
    · rw [hstore]
      by_cases hne : other = account
      · exact .inr (by rw [hne, AList.lookup_erase])
      · rw [AList.lookup_erase_ne hne, readStore_lookup]
        split
        · exact .inl rfl
        · exact .inr rfl
    · exact .inr (hnone other)
  · exact .inl rfl

end Credentials

end TopdeskMcp
