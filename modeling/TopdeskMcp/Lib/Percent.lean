import TopdeskMcp.Lib.Hex
import TopdeskMcp.Lib.Utf8
import Mathlib.Tactic.Common

/-!
# Percent-encoding

* `Percent.encode keep` writes the bytes of every character outside `keep` as
  `%XX`; `Percent.decode` reads such triples back and leaves the rest alone;
* encoding with a set that holds no percent sign is undone by decoding
  (`decode_encode`), and encoding with one that holds the percent sign and the
  digits does not change what a text decodes to (`decode_encode_of_keep`);
* characters that cannot be part of a triple (`Plain`) are the boundaries
  decoding never crosses, and removing them makes the decoded text shorter.
-/

namespace Percent

/-- `%XX`. -/
def encodeByte (b : UInt8) : List Char :=
  ['%', Hex.upperDigit (b.toNat / 16), Hex.upperDigit (b.toNat % 16)]

def encodeChar (keep : Char → Bool) (c : Char) : List Char :=
  if keep c then [c] else (String.utf8EncodeChar c).flatMap encodeByte

def encode (keep : Char → Bool) (chars : List Char) : List Char :=
  chars.flatMap (encodeChar keep)

/-- The byte that three characters stand for. -/
def escapedByte (c high low : Char) : Option UInt8 :=
  if c = '%' then
    (Hex.value high).bind fun h => (Hex.value low).map fun l => UInt8.ofNat (16 * h + l)
  else none

def decode : List Char → Bytes
  | [] => []
  | [c] => String.utf8EncodeChar c
  | [c, d] => String.utf8EncodeChar c ++ String.utf8EncodeChar d
  | c :: high :: low :: rest =>
      match escapedByte c high low with
      | some b => b :: decode rest
      | none => String.utf8EncodeChar c ++ decode (high :: low :: rest)

/-- A character that is neither a percent sign nor a digit. -/
structure Plain (c : Char) : Prop where
  ne_percent : c ≠ '%'
  no_value : Hex.value c = none

instance (c : Char) : Decidable (Plain c) :=
  decidable_of_iff (c ≠ '%' ∧ Hex.value c = none) ⟨fun h => ⟨h.1, h.2⟩, fun h => ⟨h.1, h.2⟩⟩

@[simp] theorem encode_nil (keep : Char → Bool) : encode keep [] = [] := rfl

theorem encode_cons (keep : Char → Bool) (c : Char) (chars : List Char) :
    encode keep (c :: chars) = encodeChar keep c ++ encode keep chars := rfl

/-- Every character written is kept or part of a triple. -/
theorem mem_encode {keep : Char → Bool} {chars : List Char} {c : Char}
    (h : c ∈ encode keep chars) :
    (c ∈ chars ∧ keep c) ∨ c = '%' ∨ ∃ n < 16, c = Hex.upperDigit n := by
  obtain ⟨x, hx, hc⟩ := List.mem_flatMap.mp h
  unfold encodeChar at hc
  split at hc
  · rename_i hkeep
    obtain rfl := List.mem_singleton.mp hc
    exact .inl ⟨hx, hkeep⟩
  · obtain ⟨b, -, hb⟩ := List.mem_flatMap.mp hc
    obtain ⟨hhigh, hlow⟩ := Hex.nibbles_lt b
    simp only [encodeByte, List.mem_cons, List.not_mem_nil, or_false] at hb
    rcases hb with rfl | rfl | rfl
    · exact .inr (.inl rfl)
    · exact .inr (.inr ⟨_, hhigh, rfl⟩)
    · exact .inr (.inr ⟨_, hlow, rfl⟩)

/-! ## Decoding one character or one triple at a time -/

theorem decode_escape {c high low : Char} {b : UInt8} (h : escapedByte c high low = some b)
    (rest : List Char) : decode (c :: high :: low :: rest) = b :: decode rest := by
  rw [decode, h]

theorem decode_cons {c : Char} {rest : List Char}
    (h : ∀ high low tail, rest = high :: low :: tail → escapedByte c high low = none) :
    decode (c :: rest) = String.utf8EncodeChar c ++ decode rest := by
  match rest with
  | [] => simp [decode]
  | [d] => simp [decode]
  | high :: low :: tail => rw [decode, h high low tail rfl]

theorem escapedByte_of_ne {c : Char} (h : c ≠ '%') (high low : Char) :
    escapedByte c high low = none := by
  simp [escapedByte, h]

theorem decode_cons_of_ne {c : Char} (h : c ≠ '%') (rest : List Char) :
    decode (c :: rest) = String.utf8EncodeChar c ++ decode rest :=
  decode_cons fun high low _ _ => escapedByte_of_ne h high low

theorem escapedByte_encodeByte (b : UInt8) :
    escapedByte '%' (Hex.upperDigit (b.toNat / 16)) (Hex.upperDigit (b.toNat % 16)) = some b := by
  obtain ⟨hhigh, hlow⟩ := Hex.nibbles_lt b
  have hsum : 16 * (b.toNat / 16) + b.toNat % 16 = b.toNat := by omega
  rw [escapedByte, if_pos rfl, Hex.value_upperDigit hhigh, Hex.value_upperDigit hlow]
  show some (UInt8.ofNat (16 * (b.toNat / 16) + b.toNat % 16)) = some b
  rw [hsum, UInt8.ofNat_toNat]

theorem decode_encodeBytes (bytes : Bytes) (rest : List Char) :
    decode (bytes.flatMap encodeByte ++ rest) = bytes ++ decode rest := by
  induction bytes with
  | nil => rfl
  | cons b bytes ih =>
      rw [List.flatMap_cons, List.append_assoc]
      show decode ('%' :: _ :: _ :: (bytes.flatMap encodeByte ++ rest)) = _
      rw [decode_escape (escapedByte_encodeByte b), ih]
      rfl

/-- Decoding undoes an encoding that keeps no percent sign. -/
theorem decode_encode {keep : Char → Bool} (hkeep : keep '%' = false) (chars : List Char) :
    decode (encode keep chars) = Utf8.encodeChars chars := by
  induction chars with
  | nil => rfl
  | cons c chars ih =>
      rw [encode_cons, Utf8.encodeChars_cons, ← ih, encodeChar]
      split
      · rename_i hc
        have hne : c ≠ '%' := by
          rintro rfl
          rw [hkeep] at hc
          exact absurd hc (by decide)
        exact decode_cons_of_ne hne _
      · exact decode_encodeBytes _ _

/-- A triple is a percent sign and two digits. -/
theorem escapedByte_eq_some {c high low : Char} {b : UInt8}
    (h : escapedByte c high low = some b) :
    c = '%' ∧ Hex.value high ≠ none ∧ Hex.value low ≠ none := by
  unfold escapedByte at h
  split at h
  · rename_i hc
    obtain ⟨x, hx, h⟩ := Option.bind_eq_some_iff.mp h
    obtain ⟨y, hy, -⟩ := Option.map_eq_some_iff.mp h
    exact ⟨hc, by simp [hx], by simp [hy]⟩
  · simp at h

theorem ne_percent_of_value {c : Char} (h : Hex.value c ≠ none) : c ≠ '%' := by
  rintro rfl
  exact h (by decide)

/-! ## Boundaries -/

/-- Decoding does not cross a plain character. -/
theorem decode_append_cons {c : Char} (hc : Plain c) (before after : List Char) :
    decode (before ++ c :: after) =
      decode before ++ (String.utf8EncodeChar c ++ decode after) := by
  have hhead : ∀ after, decode (c :: after) = String.utf8EncodeChar c ++ decode after :=
    decode_cons_of_ne hc.ne_percent
  have hhigh : ∀ d e, escapedByte d c e = none := fun d e => Option.eq_none_iff_forall_ne_some.mpr
    fun b h => (escapedByte_eq_some h).2.1 hc.no_value
  have hlow : ∀ d e, escapedByte d e c = none := fun d e => Option.eq_none_iff_forall_ne_some.mpr
    fun b h => (escapedByte_eq_some h).2.2 hc.no_value
  -- so no triple reaches over `c`, from one or from two characters before it
  have hone : ∀ d, decode (d :: c :: after) =
      String.utf8EncodeChar d ++ (String.utf8EncodeChar c ++ decode after) := by
    intro d
    rw [decode_cons, hhead]
    intro high low tail h
    rw [← (List.cons.inj h).1]
    exact hhigh d low
  fun_induction decode before with
  | case1 => exact hhead after
  | case2 d => exact hone d
  | case3 d e =>
      show decode (d :: e :: c :: after) = _
      rw [decode_cons, hone e, List.append_assoc]
      intro high low tail h
      rw [← (List.cons.inj (List.cons.inj h).2).1]
      exact hlow d high
  | case4 d high low rest b hb ih =>
      show decode (d :: high :: low :: (rest ++ c :: after)) = _
      rw [decode_escape hb, ih]
      rfl
  | case5 d high low rest hb ih =>
      show decode (d :: high :: low :: (rest ++ c :: after)) = _
      rw [decode, hb]
      show _ ++ decode (high :: low :: rest ++ c :: after) = _
      rw [ih, List.append_assoc]

/-- A triple decodes to no more than its characters would one by one. -/
theorem length_decode_cons_le (c : Char) (rest : List Char) :
    (decode (c :: rest)).length ≤ (String.utf8EncodeChar c).length + (decode rest).length := by
  by_cases h : ∃ high low tail b, rest = high :: low :: tail ∧ escapedByte c high low = some b
  · obtain ⟨high, low, tail, b, rfl, hb⟩ := h
    obtain ⟨rfl, hhigh, hlow⟩ := escapedByte_eq_some hb
    rw [decode_escape hb, decode_cons_of_ne (ne_percent_of_value hhigh),
      decode_cons_of_ne (ne_percent_of_value hlow)]
    have hpercent : (String.utf8EncodeChar '%').length = 1 := by decide
    simp only [List.length_cons, List.length_append]
    omega
  · have hcons : decode (c :: rest) = String.utf8EncodeChar c ++ decode rest :=
      decode_cons fun high low tail hrest => Option.eq_none_iff_forall_ne_some.mpr
        fun b hb => h ⟨high, low, tail, b, hrest, hb⟩
    exact Nat.le_of_eq (by rw [hcons, List.length_append])

/-- Two texts side by side decode to no more than each on its own. -/
theorem length_decode_append_le (before after : List Char) :
    (decode (before ++ after)).length ≤ (decode before).length + (decode after).length := by
  fun_induction decode before with
  | case1 => simp
  | case2 c => simpa using length_decode_cons_le c after
  | case3 c d =>
      have hc := length_decode_cons_le c (d :: after)
      have hd := length_decode_cons_le d after
      simp only [List.cons_append, List.nil_append, List.length_append]
      omega
  | case4 c high low rest b hb ih =>
      have hstep : decode (c :: high :: low :: rest ++ after) = b :: decode (rest ++ after) :=
        decode_escape hb _
      rw [hstep, List.length_cons, List.length_cons]
      omega
  | case5 c high low rest hb ih =>
      have hstep := length_decode_cons_le c (high :: low :: rest ++ after)
      simp only [List.cons_append, List.length_append] at hstep ih ⊢
      omega

theorem length_utf8EncodeChar_pos (c : Char) : 0 < (String.utf8EncodeChar c).length := by
  rw [String.length_utf8EncodeChar]
  exact c.utf8Size_pos

theorem decode_pos {chars : List Char} (h : chars ≠ []) : 0 < (decode chars).length := by
  match chars, h with
  | [c], _ => exact length_utf8EncodeChar_pos c
  | [c, d], _ =>
      have := length_utf8EncodeChar_pos c
      simp only [decode, List.length_append]
      omega
  | c :: high :: low :: rest, _ =>
      have := length_utf8EncodeChar_pos c
      rw [decode]
      split
      · simp
      · rw [List.length_append]
        omega

/-- Taking out a plain character makes the decoded text shorter. -/
theorem length_decode_remove {c : Char} (hc : Plain c) (before after : List Char) :
    (decode (before ++ after)).length < (decode (before ++ c :: after)).length := by
  have hle := length_decode_append_le before after
  have hpos := length_utf8EncodeChar_pos c
  rw [decode_append_cons hc, List.length_append, List.length_append]
  omega

theorem length_decode_filter_le {p : Char → Bool} (hp : ∀ c, p c = false → Plain c)
    (before chars : List Char) :
    (decode (before ++ chars.filter p)).length ≤ (decode (before ++ chars)).length := by
  induction chars generalizing before with
  | nil => exact Nat.le_refl _
  | cons c chars ih =>
      cases hc : p c with
      | true =>
          rw [List.filter_cons_of_pos hc]
          simpa using ih (before ++ [c])
      | false =>
          rw [List.filter_cons_of_neg (by simp [hc])]
          have hlt := length_decode_remove (hp c hc) before chars
          have := ih before
          omega

/-- Filtering some of them out makes the decoded text shorter. -/
theorem length_decode_filter_lt {p : Char → Bool} (hp : ∀ c, p c = false → Plain c)
    {chars : List Char} (h : chars.filter p ≠ chars) :
    (decode (chars.filter p)).length < (decode chars).length := by
  have hex : ∃ c ∈ chars, ¬ p c = true := by
    by_contra hall
    push Not at hall
    exact h (List.filter_eq_self.mpr hall)
  obtain ⟨c, hc, hout⟩ := hex
  obtain ⟨before, after, rfl⟩ := List.append_of_mem hc
  have hle := length_decode_filter_le hp [] (before ++ after)
  have hlt := length_decode_remove (hp c (by simpa using hout)) before after
  have hfilter : (before ++ c :: after).filter p = (before ++ after).filter p := by
    simp [hout]
  rw [hfilter]
  exact Nat.lt_of_le_of_lt hle hlt

/-- Taking plain characters off the front or the back. -/
theorem length_decode_middle {front back : List Char} (hfront : ∀ c ∈ front, Plain c)
    (hback : ∀ c ∈ back, Plain c) (middle : List Char) :
    (decode middle).length + front.length + back.length ≤
      (decode (front ++ middle ++ back)).length := by
  induction front with
  | nil =>
      induction back generalizing middle with
      | nil => simp
      | cons c back ih =>
          have hlt := length_decode_remove (hback c (by simp)) middle back
          have := ih (fun d hd => hback d (by simp [hd])) middle
          simp only [List.nil_append, List.length_nil, List.length_cons] at *
          omega
  | cons c front ih =>
      have hlt := length_decode_remove (hfront c (by simp)) [] (front ++ middle ++ back)
      have := ih fun d hd => hfront d (by simp [hd])
      simp only [List.nil_append, List.cons_append, List.length_cons] at *
      omega

/-! ## Encoding what is already encoded -/

/-- A digit at the front of an encoded text was there before. -/
theorem encode_eq_cons {keep : Char → Bool} {chars tail : List Char} {x : Char}
    (h : encode keep chars = x :: tail) (hx : Hex.value x ≠ none) :
    ∃ rest, chars = x :: rest ∧ encode keep rest = tail := by
  cases chars with
  | nil => simp at h
  | cons c rest =>
      rw [encode_cons, encodeChar] at h
      split at h
      · obtain ⟨rfl, htail⟩ := List.cons.inj h
        exact ⟨rest, rfl, htail⟩
      · obtain ⟨b, bytes, hbytes⟩ := List.exists_cons_of_length_pos (length_utf8EncodeChar_pos c)
        rw [hbytes] at h
        obtain ⟨rfl, -⟩ := List.cons.inj h
        exact absurd (by decide) hx

/-- Encoding with a set that keeps every character a triple is made of. -/
theorem decode_encode_of_keep {keep : Char → Bool} (hkeep : ∀ c, keep c = false → Plain c)
    (chars : List Char) : decode (encode keep chars) = decode chars := by
  have hstep : ∀ c rest,
      (∀ high low tail, rest = high :: low :: tail → escapedByte c high low = none) →
      decode (encode keep rest) = decode rest →
      decode (encode keep (c :: rest)) = decode (c :: rest) := by
    intro c rest hnone ih
    rw [decode_cons hnone, encode_cons, encodeChar, ← ih]
    split
    · -- a triple after `c` in the encoding would have been one before it
      refine decode_cons fun high low tail htail =>
        Option.eq_none_iff_forall_ne_some.mpr fun b hb => ?_
      obtain ⟨-, hhigh, hlow⟩ := escapedByte_eq_some hb
      obtain ⟨rest', rfl, htail'⟩ := encode_eq_cons htail hhigh
      obtain ⟨rest'', rfl, -⟩ := encode_eq_cons htail' hlow
      exact absurd hb (by simp [hnone high low rest'' rfl])
    · exact decode_encodeBytes _ _
  have hkept : ∀ c, Hex.value c ≠ none → keep c = true := by
    intro c hc
    by_contra hout
    exact hc (hkeep c (by simpa using hout)).no_value
  fun_induction decode chars with
  | case1 => rfl
  | case2 c => exact hstep c [] (by simp) rfl
  | case3 c d =>
      exact hstep c [d] (by simp) (hstep d [] (by simp) rfl)
  | case4 c high low rest b hb ih =>
      obtain ⟨rfl, hhigh, hlow⟩ := escapedByte_eq_some hb
      have hpercent : keep '%' = true := by
        by_contra hout
        exact (hkeep '%' (by simpa using hout)).ne_percent rfl
      simp only [encode_cons, encodeChar, hpercent, hkept high hhigh, hkept low hlow, if_true]
      show decode ('%' :: high :: low :: encode keep rest) = _
      rw [decode_escape hb, ih]
  | case5 c high low rest hb ih =>
      have hcons := hstep c (high :: low :: rest) (by rintro _ _ _ ⟨⟩; exact hb) ih
      rw [hcons, decode, hb]

end Percent
