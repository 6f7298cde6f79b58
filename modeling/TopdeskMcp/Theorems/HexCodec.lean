import TopdeskMcp.Theorems.CredentialFile

/-!
# What the hex decoder accepts

The decoder hands each pair to a number parser, which takes a plus sign and a digit for a number
too. So it accepts more than what the encoder writes, and it panics where a pair cuts a character.
Elsewhere it accepts pairs of digits and nothing else (`exact_iff`).
-/

namespace TopdeskMcp.Theorems.HexCodec

open TopdeskMcp TopdeskMcp.Credentials CredentialFile

/-- An even number of digits, in either case. -/
def IsHex (text : List Char) : Prop :=
  text.length % 2 = 0 ∧ ∀ c ∈ text, (Hex.value c).isSome

/-- The decoder ends, with a value if and only if the text is one of the encoder in either case. -/
structure Exact (text : List Char) : Prop where
  total : fromHex text ≠ .panicked
  accepts : (∃ bytes, fromHex text = .ok bytes) ↔ IsHex text
  lower : ∀ bytes, fromHex text = .ok bytes → toHex bytes = text.map Char.toLower

/-- Pairs of two digits, or of a plus sign and a digit, and some of the latter. -/
def Signed (text : List Char) : Prop := Digits text ∧ '+' ∈ text

/-- A digit is read as the number that is written as its lower case. -/
theorem digit_of_value {c : Char} {n : Nat} (h : Hex.value c = some n) :
    n < 16 ∧ Hex.digit n = c.toLower := by
  have hsmall : c.toNat < 103 := by
    by_contra hlarge
    rw [Hex.value_eq_none (.inr (show 'f'.toNat < c.toNat from by
      have hf : 'f'.toNat = 102 := rfl
      omega))] at h
    simp at h
  have hall : ∀ k : Fin 103, ∀ m ∈ Hex.value (Char.ofNat k),
      m < 16 ∧ Hex.digit m = (Char.ofNat k).toLower := by decide
  have hc := hall ⟨c.toNat, hsmall⟩ n
  rw [Char.ofNat_toNat] at hc
  exact hc h

theorem fromStrRadix16_of_values {high low : Char} {h l : Nat} (hhigh : Hex.value high = some h)
    (hlow : Hex.value low = some l) :
    fromStrRadix16 high low = some (UInt8.ofNat (16 * h + l)) := by
  have hplus : high ≠ '+' := by
    rintro rfl
    cases hhigh
  rw [fromStrRadix16, if_neg hplus, hhigh, hlow]
  rfl

/-- A pair of digits is a byte, and the byte is written as the pair in lower case. -/
theorem toHex_pair {high low : Char} {h l : Nat} (hhigh : Hex.value high = some h)
    (hlow : Hex.value low = some l) (bytes : Bytes) :
    toHex (UInt8.ofNat (16 * h + l) :: bytes) = high.toLower :: low.toLower :: toHex bytes := by
  obtain ⟨hlt, hdigit⟩ := digit_of_value hhigh
  obtain ⟨hlt', hdigit'⟩ := digit_of_value hlow
  have hbyte : (UInt8.ofNat (16 * h + l)).toNat = 16 * h + l := by
    rw [UInt8.toNat_ofNat']
    omega
  have hdiv : (16 * h + l) / 16 = h := by omega
  have hmod : (16 * h + l) % 16 = l := by omega
  rw [toHex_cons, hbyte, hdiv, hmod, hdigit, hdigit']

theorem IsHex.pair {high low : Char} {rest : List Char} (h : IsHex (high :: low :: rest)) :
    (Hex.value high).isSome ∧ (Hex.value low).isSome ∧ IsHex rest := by
  obtain ⟨heven, hdigits⟩ := h
  simp only [List.length_cons] at heven
  refine ⟨hdigits high (by simp), hdigits low (by simp), by omega, ?_⟩
  intro c hc
  exact hdigits c (by simp [hc])

/-- Digits are read, and written back in lower case. -/
theorem fromHexPairs_of_isHex {text : List Char} (h : IsHex text) :
    Digits text ∧ ∃ bytes, fromHexPairs text = .ok bytes ∧ toHex bytes = text.map Char.toLower := by
  match text, h with
  | [], _ => exact ⟨.nil, [], rfl, rfl⟩
  | [c], h => exact absurd h.1 (by simp)
  | high :: low :: rest, h =>
      obtain ⟨hhigh, hlow, hrest⟩ := h.pair
      obtain ⟨n, hn⟩ := Option.isSome_iff_exists.mp hhigh
      obtain ⟨m, hm⟩ := Option.isSome_iff_exists.mp hlow
      obtain ⟨hdigits, bytes, hbytes, hlower⟩ := fromHexPairs_of_isHex hrest
      have hpair := fromStrRadix16_of_values hn hm
      refine ⟨.pair (by rw [hpair]; rfl) hdigits, UInt8.ofNat (16 * n + m) :: bytes, ?_, ?_⟩
      · simp [fromHexPairs, value_utf8Size hhigh, value_utf8Size hlow, hpair, hbytes,
          Outcome.bind]
      · rw [toHex_pair hn hm, hlower]
        rfl

theorem fromHex_of_isHex {text : List Char} (h : IsHex text) :
    ∃ bytes, fromHex text = .ok bytes ∧ toHex bytes = text.map Char.toLower := by
  obtain ⟨hdigits, bytes, hbytes, hlower⟩ := fromHexPairs_of_isHex h
  obtain ⟨hlength, heven⟩ := length_encodeChars_digits hdigits
  refine ⟨bytes, ?_, hlower⟩
  rw [fromHex, if_neg (by omega), hbytes]

/-- Pairs that are read without a plus sign are pairs of digits. -/
theorem isHex_of_digits {text : List Char} (h : Digits text) (hplus : '+' ∉ text) : IsHex text := by
  refine ⟨(length_encodeChars_digits h).2, ?_⟩
  induction h with
  | nil => simp
  | @pair high low rest hpair _ ih =>
      have hhigh : high ≠ '+' := fun heq => hplus (by simp [heq])
      rw [fromStrRadix16, if_neg hhigh] at hpair
      obtain ⟨b, hb⟩ := Option.isSome_iff_exists.mp hpair
      obtain ⟨n, hn, hb⟩ := Option.bind_eq_some_iff.mp hb
      obtain ⟨m, hm, -⟩ := Option.map_eq_some_iff.mp hb
      intro c hc
      rcases List.mem_cons.mp hc with rfl | hc
      · rw [hn]
        rfl
      rcases List.mem_cons.mp hc with rfl | hc
      · rw [hm]
        rfl
      · exact ih (fun hmem => hplus (by simp [hmem])) c hc

theorem Signed.not_isHex {text : List Char} (h : Signed text) : ¬ IsHex text := by
  intro hhex
  have hplus : (Hex.value '+').isSome := hhex.2 '+' h.2
  cases hplus

theorem exact_iff (text : List Char) : Exact text ↔ ¬ Cuts text ∧ ¬ Signed text := by
  constructor
  · intro h
    refine ⟨fun hcuts => h.total (fromHex_panicked_iff.mpr hcuts), ?_⟩
    intro hsigned
    obtain ⟨bytes, hbytes, -⟩ := fromHex_digits hsigned.1
    exact hsigned.not_isHex (h.accepts.mp ⟨bytes, hbytes⟩)
  · rintro ⟨hcuts, hsigned⟩
    have hhex : ∀ bytes, fromHex text = .ok bytes → IsHex text := by
      intro bytes hbytes
      have hdigits := (fromHex_ok hbytes).1
      exact isHex_of_digits hdigits fun hplus => hsigned ⟨hdigits, hplus⟩
    constructor
    · exact fun hpanicked => hcuts (fromHex_panicked_iff.mp hpanicked)
    · constructor
      · rintro ⟨bytes, hbytes⟩
        exact hhex bytes hbytes
      · intro h
        obtain ⟨bytes, hbytes, -⟩ := fromHex_of_isHex h
        exact ⟨bytes, hbytes⟩
    · intro bytes hbytes
      obtain ⟨bytes', hbytes', hlower⟩ := fromHex_of_isHex (hhex bytes hbytes)
      obtain rfl : bytes = bytes' := by simpa [hbytes] using hbytes'
      exact hlower

/-- **The codec is exact** on the texts that cut no character and have no plus sign in front of a
digit, and it decodes all that it encodes. -/
theorem codec_exact_iff (bytes : Bytes) (text : List Char) :
    fromHex (toHex bytes) = .ok bytes ∧ (Exact text ↔ ¬ Cuts text ∧ ¬ Signed text) :=
  ⟨fromHex_toHex bytes, exact_iff text⟩

/-- A plus sign is taken for a digit, and a slice cuts the second character. -/
theorem codec_exact_fails : ¬ Exact "+f".toList ∧ ¬ Exact "aéb".toList := by
  constructor
  · intro h
    have hplus := (h.accepts.mp ⟨[15], rfl⟩).2 '+' (by simp)
    cases hplus
  · intro h
    exact h.total rfl

end TopdeskMcp.Theorems.HexCodec
