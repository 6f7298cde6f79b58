import TopdeskMcp.Theorems.Credentials

/-!
# Reading the encrypted file

`load_from_file` takes an entry apart with operations that are partial: slicing a text
panics inside a character, and a nonce is made only of twelve bytes. `Panics` names the
entries on which one of them is used outside its domain, and the call panics on these
and no others (`load_total_iff`).

* `Digits` is text that reads as two-digit numbers, and `Cuts` text on which the decoder
  comes to slice a character;
* `fromHex_panicked_iff` and `fromHex_ok` say how `from_hex` ends on them.
-/

namespace TopdeskMcp.Theorems.CredentialFile

open TopdeskMcp TopdeskMcp.Credentials Credentials

/-- Pairs of characters that read as bytes. -/
inductive Digits : List Char → Prop
  | nil : Digits []
  | pair {high low : Char} {rest : List Char} : (fromStrRadix16 high low).isSome → Digits rest →
      Digits (high :: low :: rest)

/-- Two bytes into the text there is no boundary between characters. -/
def CutsCharacter : List Char → Prop
  | [] => False
  | [c] => c.utf8Size ≠ 2
  | c :: d :: _ => c.utf8Size ≠ 2 ∧ (c.utf8Size = 1 → d.utf8Size ≠ 1)

/-- An even number of bytes, and pairs up to a slice that cuts a character. -/
def Cuts (text : List Char) : Prop :=
  (Utf8.encodeChars text).length % 2 = 0 ∧
    ∃ pairs rest, text = pairs ++ rest ∧ Digits pairs ∧ CutsCharacter rest

/-- A nonce field that cuts a character or is no twelve bytes, or a ciphertext field that
cuts a character. -/
def Panics (raw : String) : Prop :=
  ∃ nonceHex ciphertextHex, splitOnce ':' raw.toList = some (nonceHex, ciphertextHex) ∧
    (Cuts nonceHex ∨ Digits nonceHex ∧ (nonceHex.length ≠ 24 ∨ Cuts ciphertextHex))

/-! ## How `from_hex` ends -/

theorem value_utf8Size {c : Char} (h : (Hex.value c).isSome) : c.utf8Size = 1 := by
  have hle : c.toNat ≤ 'f'.toNat := by
    by_contra hgt
    rw [Hex.value_eq_none (.inr (by omega))] at h
    simp at h
  refine Char.utf8Size_eq_one_iff.mpr ?_
  have hf : 'f'.toNat = 102 := rfl
  rw [UInt32.le_iff_toNat_le]
  show c.toNat ≤ 127
  omega

/-- The characters of a pair are one byte each. -/
theorem fromStrRadix16_utf8Size {high low : Char} (h : (fromStrRadix16 high low).isSome) :
    high.utf8Size = 1 ∧ low.utf8Size = 1 := by
  unfold fromStrRadix16 at h
  split at h
  · rename_i hplus
    rw [Option.isSome_map] at h
    exact ⟨by rw [hplus]; rfl, value_utf8Size h⟩
  · obtain ⟨b, hb⟩ := Option.isSome_iff_exists.mp h
    obtain ⟨n, hn, hb⟩ := Option.bind_eq_some_iff.mp hb
    obtain ⟨m, hm, -⟩ := Option.map_eq_some_iff.mp hb
    exact ⟨value_utf8Size (by simp [hn]), value_utf8Size (by simp [hm])⟩

theorem bind_panicked_iff {α β : Type} {x : Outcome α} {f : α → Outcome β} :
    x.bind f = .panicked ↔ x = .panicked ∨ ∃ value, x = .ok value ∧ f value = .panicked := by
  cases x <;> simp [Outcome.bind]

theorem fromHexPairs_of_cutsCharacter {rest : List Char} (h : CutsCharacter rest) :
    fromHexPairs rest = .panicked := by
  match rest, h with
  | [c], h =>
      rw [fromHexPairs, if_neg h]
      split <;> rfl
  | c :: d :: tail, h =>
      rw [fromHexPairs, if_neg h.1]
      split
      · rfl
      · rename_i hone
        simp [h.2 (by simpa using hone)]

/-- Pairs in front are read, and what follows decides. -/
theorem fromHexPairs_append {pairs : List Char} (h : Digits pairs) (rest : List Char) :
    ∃ bytes, bytes.length * 2 = pairs.length ∧
      fromHexPairs (pairs ++ rest) = (fromHexPairs rest).bind fun bs => .ok (bytes ++ bs) := by
  induction h with
  | nil =>
      refine ⟨[], rfl, ?_⟩
      rw [List.nil_append]
      cases fromHexPairs rest <;> rfl
  | @pair high low tail hpair _ ih =>
      obtain ⟨bytes, hlength, heq⟩ := ih
      obtain ⟨hhigh, hlow⟩ := fromStrRadix16_utf8Size hpair
      obtain ⟨b, hb⟩ := Option.isSome_iff_exists.mp hpair
      refine ⟨b :: bytes, by simp only [List.length_cons]; omega, ?_⟩
      simp only [List.cons_append, fromHexPairs, hhigh, hlow, hb, heq]
      cases fromHexPairs rest <;> simp [Outcome.bind]

theorem fromHexPairs_panicked {text : List Char} (h : fromHexPairs text = .panicked) :
    ∃ pairs rest, text = pairs ++ rest ∧ Digits pairs ∧ CutsCharacter rest := by
  fun_induction fromHexPairs text with
  | case1 => simp at h
  | case2 => simp at h
  | case3 high rest htwo hone =>
      refine ⟨[], high :: rest, rfl, .nil, ?_⟩
      cases rest with
      | nil => exact htwo
      | cons low rest => exact ⟨htwo, fun h => absurd h hone⟩
  | case4 high htwo => exact ⟨[], [high], rfl, .nil, htwo⟩
  | case5 high htwo hone low rest hlow =>
      exact ⟨[], high :: low :: rest, rfl, .nil, htwo, fun _ => hlow⟩
  | case6 => simp at h
  | case7 high htwo hone low rest hlow b hb ih =>
      obtain hrest | ⟨bytes, -, hbytes⟩ := bind_panicked_iff.mp h
      · obtain ⟨pairs, tail, rfl, hpairs, hcuts⟩ := ih hrest
        exact ⟨high :: low :: pairs, tail, rfl, .pair (by simp [hb]) hpairs, hcuts⟩
      · simp at hbytes

theorem digits_of_fromHexPairs {text : List Char} {bytes : Bytes}
    (h : fromHexPairs text = .ok bytes) : Digits text := by
  fun_induction fromHexPairs text generalizing bytes with
  | case1 => exact .nil
  | case7 high htwo hone low rest hlow b hb ih =>
      cases hrest : fromHexPairs rest with
      | ok bs => exact .pair (by simp [hb]) (ih hrest)
      | err error => simp [hrest, Outcome.bind] at h
      | panicked => simp [hrest, Outcome.bind] at h
  | _ => simp at h

theorem fromHex_panicked_iff {text : List Char} : fromHex text = .panicked ↔ Cuts text := by
  unfold fromHex Cuts
  split
  · rename_i hodd
    exact ⟨fun h => by simp at h, fun h => absurd h.1 hodd⟩
  · rename_i heven
    constructor
    · intro h
      exact ⟨by omega, fromHexPairs_panicked h⟩
    · rintro ⟨-, pairs, rest, rfl, hpairs, hcuts⟩
      obtain ⟨bytes, -, heq⟩ := fromHexPairs_append hpairs rest
      rw [heq, fromHexPairs_of_cutsCharacter hcuts]
      rfl

theorem length_encodeChars_digits {text : List Char} (h : Digits text) :
    (Utf8.encodeChars text).length = text.length ∧ text.length % 2 = 0 := by
  induction h with
  | nil => exact ⟨rfl, rfl⟩
  | pair hpair _ ih =>
      obtain ⟨hhigh, hlow⟩ := fromStrRadix16_utf8Size hpair
      simp only [Utf8.encodeChars_cons, List.length_append, String.length_utf8EncodeChar, hhigh,
        hlow, List.length_cons, ih.1]
      omega

/-- Pairs of digits are read as half as many bytes. -/
theorem fromHex_digits {text : List Char} (h : Digits text) :
    ∃ bytes, fromHex text = .ok bytes ∧ bytes.length * 2 = text.length := by
  obtain ⟨bytes, hlength, heq⟩ := fromHexPairs_append h []
  obtain ⟨hbytes, heven⟩ := length_encodeChars_digits h
  refine ⟨bytes, ?_, hlength⟩
  rw [List.append_nil] at heq
  rw [fromHex, if_neg (by omega), heq]
  simp [fromHexPairs, Outcome.bind]

theorem fromHex_ok {text : List Char} {bytes : Bytes} (h : fromHex text = .ok bytes) :
    Digits text ∧ bytes.length * 2 = text.length := by
  have hdigits : Digits text := by
    unfold fromHex at h
    split at h
    · simp at h
    · exact digits_of_fromHexPairs h
  obtain ⟨bytes', hbytes', hlength⟩ := fromHex_digits hdigits
  obtain rfl : bytes = bytes' := by simpa [h] using hbytes'
  exact ⟨hdigits, hlength⟩

/-! ## Entries -/

/-- After the nonce and the ciphertext are read, nothing panics. -/
theorem decryptEntry_panicked_iff (P : Platform) (account raw : String) :
    decryptEntry P account raw = .panicked ↔ Panics raw := by
  unfold decryptEntry Panics
  cases hsplit : splitOnce ':' raw.toList with
  | none => simp
  | some fields =>
      obtain ⟨nonceHex, ciphertextHex⟩ := fields
      dsimp only
      rw [bind_panicked_iff, fromHex_panicked_iff]
      constructor
      · rintro (hcuts | ⟨nonceBytes, hnonce, hrest⟩)
        · exact ⟨_, _, rfl, .inl hcuts⟩
        · obtain ⟨hdigits, hlength⟩ := fromHex_ok hnonce
          refine ⟨_, _, rfl, .inr ⟨hdigits, ?_⟩⟩
          split at hrest
          · rename_i htwelve
            obtain hcipher | ⟨ciphertext, -, hopened⟩ := bind_panicked_iff.mp hrest
            · exact .inr (fromHex_panicked_iff.mp hcipher)
            · -- decryption and decoding end in an error or a value
              split at hopened
              · simp at hopened
              · split at hopened <;> simp at hopened
          · exact .inl (by omega)
      · rintro ⟨nonceHex', ciphertextHex', heq, hpanics⟩
        obtain ⟨rfl, rfl⟩ := Prod.mk.inj (Option.some.inj heq)
        refine hpanics.imp_right ?_
        rintro ⟨hdigits, hbad⟩
        obtain ⟨nonceBytes, hnonce, hlength⟩ := fromHex_digits hdigits
        refine ⟨nonceBytes, hnonce, ?_⟩
        split
        · rename_i htwelve
          have hcuts := hbad.resolve_left (by omega)
          exact bind_panicked_iff.mpr (.inl (fromHex_panicked_iff.mpr hcuts))
        · rfl

/-- **Totality.** `load_from_file` does not panic if and only if the entry it finds, if any,
is none of those that panic. -/
theorem load_total_iff (P : Platform) (io : Io) (file : Option Bytes) (account : String) :
    loadFromFile P io file account ≠ .panicked ↔
      ∀ raw, (readStore P io file).lookup account = some raw → ¬ Panics raw := by
  unfold loadFromFile
  cases hentry : (readStore P io file).lookup account with
  | none => simp
  | some raw =>
      simp only [Option.some.injEq, forall_eq']
      rw [← decryptEntry_panicked_iff P account raw, not_iff_not, bind_panicked_iff]
      simp

/-- The file that holds one entry. -/
def fileOf (raw : String) : Option Bytes :=
  some (Utf8.encode (plain.toStr ((∅ : StringMap).insert "active-credentials" raw)))

theorem readStore_fileOf (raw : String) :
    (readStore plain .healthy (fileOf raw)).lookup "active-credentials" = some raw := by
  have hwritten := rawEntry_written plain_lawful ((∅ : StringMap).insert "active-credentials" raw)
    "active-credentials"
  rw [AList.lookup_insert] at hwritten
  exact hwritten

theorem loadFromFile_fileOf {raw : String} (h : Panics raw) :
    loadFromFile plain .healthy (fileOf raw) "active-credentials" = .panicked := by
  simp only [loadFromFile, readStore_fileOf]
  exact bind_panicked_iff.mpr (.inl ((decryptEntry_panicked_iff plain _ raw).mpr h))

/-- A nonce of one byte and a nonce field with a two-byte character both panic. -/
theorem load_panics :
    loadFromFile plain .healthy (fileOf "00:00") "active-credentials" = .panicked ∧
      loadFromFile plain .healthy (fileOf "0é0:00") "active-credentials" = .panicked := by
  constructor
  · refine loadFromFile_fileOf ⟨"00".toList, "00".toList, by decide, .inr ⟨?_, .inl (by decide)⟩⟩
    exact .pair (by decide) .nil
  · refine loadFromFile_fileOf ⟨"0é0".toList, "00".toList, by decide, .inl ⟨by decide, ?_⟩⟩
    exact ⟨[], "0é0".toList, rfl, .nil, by decide, fun _ => by decide⟩

end TopdeskMcp.Theorems.CredentialFile
