import Mathlib.Tactic.Common

/-!
# The coverage gate (`scripts/check_production_coverage.py`)

`matching_brace` looks for the brace that closes a test module. An index is modelled by the text
from there on.
-/

namespace TopdeskMcp.ProductionCoverage

/-- On from the next newline, or the end. -/
def afterLine (text : List Char) : List Char := (text.dropWhile (· != '\n')).drop 1

/-- The loop with `comment_depth`. -/
def afterComment : Nat → List Char → List Char
  | 0, text => text
  | _ + 1, [] => []
  | depth + 1, '/' :: '*' :: rest => afterComment (depth + 2) rest
  | depth + 1, '*' :: '/' :: rest => afterComment depth rest
  | depth + 1, _ :: rest => afterComment (depth + 1) rest

/-- `#*"` -/
def hashesAndQuote : Nat → List Char → Option (Nat × List Char)
  | hashes, '#' :: rest => hashesAndQuote (hashes + 1) rest
  | hashes, '"' :: rest => some (hashes, rest)
  | _, _ => none

/-- `(?:br|r)(?P<hashes>#+)?"`, with the number of hashes. -/
def rawStart : List Char → Option (Nat × List Char)
  | 'b' :: 'r' :: rest => hashesAndQuote 0 rest
  | 'r' :: rest => hashesAndQuote 0 rest
  | _ => none

/-- On from the end of the first terminator. -/
def afterTerminator (terminator : List Char) : List Char → Option (List Char)
  | [] => none
  | c :: rest =>
      if terminator.isPrefixOf (c :: rest) then some ((c :: rest).drop terminator.length)
      else afterTerminator terminator rest

/-- The loop over the inside of a string. -/
def afterString : List Char → List Char
  | [] => []
  | ['\\'] => []
  | '\\' :: _ :: rest => afterString rest
  | '"' :: rest => rest
  | _ :: rest => afterString rest

/-- `'(?:\\.|[^\\'\n])'` -/
def afterChar : List Char → Option (List Char)
  | '\'' :: '\\' :: c :: '\'' :: rest => if c = '\n' then none else some rest
  | '\'' :: c :: '\'' :: rest => if c = '\\' ∨ c = '\'' ∨ c = '\n' then none else some rest
  | _ => none

/-- What is left out at an index as a whole, in the order in which it is tried. -/
def skipped (text : List Char) : Option (Except String (List Char)) :=
  match text with
  | '/' :: '/' :: rest => some (.ok (afterLine rest))
  | '/' :: '*' :: rest => some (.ok (afterComment 1 rest))
  | _ =>
      match rawStart text with
      | some (hashes, rest) =>
          match afterTerminator ('"' :: List.replicate hashes '#') rest with
          | some after => some (.ok after)
          | none =>
              some (.error "unterminated raw string while locating #[cfg(test)] module")
      | none =>
          match text with
          | '"' :: rest => some (.ok (afterString rest))
          | _ => (afterChar text).map .ok

/-! ## The loop ends -/

theorem length_afterLine_le (text : List Char) : (afterLine text).length ≤ text.length := by
  have := (List.dropWhile_suffix (· != '\n') (l := text)).length_le
  rw [afterLine, List.length_drop]
  omega

theorem length_afterComment_le (depth : Nat) (text : List Char) :
    (afterComment depth text).length ≤ text.length := by
  fun_induction afterComment depth text <;> simp <;> omega

theorem length_hashesAndQuote_lt {hashes n : Nat} {text rest : List Char}
    (h : hashesAndQuote hashes text = some (n, rest)) : rest.length < text.length := by
  fun_induction hashesAndQuote hashes text with
  | case1 hashes text ih =>
      have := ih h
      simp
      omega
  | case2 hashes text =>
      rw [← (Prod.mk.inj (Option.some.inj h)).2]
      simp
  | case3 => simp at h

theorem length_rawStart_lt {n : Nat} {text rest : List Char} (h : rawStart text = some (n, rest)) :
    rest.length < text.length := by
  unfold rawStart at h
  split at h
  · have := length_hashesAndQuote_lt h
    simp
    omega
  · have := length_hashesAndQuote_lt h
    simp
    omega
  · simp at h

theorem length_afterTerminator_le {terminator text rest : List Char}
    (h : afterTerminator terminator text = some rest) : rest.length ≤ text.length := by
  fun_induction afterTerminator terminator text with
  | case1 => simp at h
  | case2 c text hstart =>
      rw [← Option.some.inj h]
      simp
  | case3 c text hstart ih =>
      have := ih h
      simp
      omega

theorem length_afterString_le (text : List Char) : (afterString text).length ≤ text.length := by
  fun_induction afterString text <;> simp <;> omega

theorem length_afterChar_lt {text rest : List Char} (h : afterChar text = some rest) :
    rest.length < text.length := by
  unfold afterChar at h
  split at h
  · split at h
    · simp at h
    · rw [← Option.some.inj h]
      simp
      omega
  · split at h
    · simp at h
    · rw [← Option.some.inj h]
      simp
      omega
  · simp at h

theorem length_skipped_lt {text after : List Char} (h : skipped text = some (.ok after)) :
    after.length < text.length := by
  unfold skipped at h
  split at h
  · rename_i rest
    rw [← Except.ok.inj (Option.some.inj h)]
    have := length_afterLine_le rest
    simp
    omega
  · rename_i rest
    rw [← Except.ok.inj (Option.some.inj h)]
    have := length_afterComment_le 1 rest
    simp
    omega
  · split at h
    · rename_i hashes rest hraw
      have hstart := length_rawStart_lt hraw
      split at h
      · rename_i tail htail
        have hend := length_afterTerminator_le htail
        rw [← Except.ok.inj (Option.some.inj h)]
        omega
      · simp at h
    · split at h
      · rename_i rest _ _ _
        rw [← Except.ok.inj (Option.some.inj h)]
        have := length_afterString_le rest
        simp
        omega
      · obtain ⟨tail, hchar, heq⟩ := Option.map_eq_some_iff.mp h
        rw [← Except.ok.inj heq]
        exact length_afterChar_lt hchar

/-- The `while` loop at an index: `depth` braces are open, and `size` is the length of the whole
text. -/
def scan (size : Nat) (depth : Nat) : List Char → Except String Nat
  | [] => .error "unterminated #[cfg(test)] module"
  | c :: rest =>
      match _h : skipped (c :: rest) with
      | some (.ok after) => scan size depth after
      | some (.error error) => .error error
      | none =>
          if c = '{' then scan size (depth + 1) rest
          else if c = '}' then
            if depth - 1 = 0 then .ok (size - (c :: rest).length)
            else scan size (depth - 1) rest
          else scan size depth rest
termination_by text => text.length
decreasing_by
  · exact length_skipped_lt _h
  all_goals simp

def matchingBrace (text : List Char) (opening : Nat) : Except String Nat :=
  scan text.length 1 (text.drop (opening + 1))

/-! ## Steps of the scanner -/

section

variable {size depth : Nat} {text rest after : List Char} {c : Char}

theorem skipped_raw {hashes : Nat} (h : rawStart text = some (hashes, rest))
    (hafter : afterTerminator ('"' :: List.replicate hashes '#') rest = some after) :
    skipped text = some (.ok after) := by
  unfold skipped
  split
  · simp [rawStart] at h
  · simp [rawStart] at h
  · simp only [h, hafter]

theorem skipped_eq_none (hcomment : c = '/' → ∀ d ∈ rest.head?, d ≠ '/' ∧ d ≠ '*')
    (hraw : rawStart (c :: rest) = none) (hquote : c ≠ '"') (hchar : afterChar (c :: rest) = none) :
    skipped (c :: rest) = none := by
  unfold skipped
  split
  · rename_i heq
    obtain ⟨rfl, rfl⟩ := List.cons.inj heq
    exact absurd rfl (hcomment rfl '/' rfl).1
  · rename_i heq
    obtain ⟨rfl, rfl⟩ := List.cons.inj heq
    exact absurd rfl (hcomment rfl '*' rfl).2
  · simp only [hraw]
    split
    · rename_i heq
      exact absurd (List.cons.inj heq).1 hquote
    · rw [hchar, Option.map_none]

theorem scan_skipped (hne : text ≠ []) (h : skipped text = some (.ok after)) :
    scan size depth text = scan size depth after := by
  obtain ⟨c, rest, rfl⟩ := List.exists_cons_of_ne_nil hne
  rw [scan]
  split
  · rename_i tail htail
    rw [h] at htail
    rw [Except.ok.inj (Option.some.inj htail)]
  · simp_all
  · simp_all

theorem scan_char (h : skipped (c :: rest) = none) :
    scan size depth (c :: rest) =
      if c = '{' then scan size (depth + 1) rest
      else if c = '}' then
        if depth - 1 = 0 then .ok (size - (c :: rest).length) else scan size (depth - 1) rest
      else scan size depth rest := by
  rw [scan]
  split <;> simp_all

/-- A character on its own that is no brace. -/
theorem scan_other (h : skipped (c :: rest) = none) (hbrace : c ≠ '{' ∧ c ≠ '}') :
    scan size depth (c :: rest) = scan size depth rest := by
  rw [scan_char h, if_neg hbrace.1, if_neg hbrace.2]

/-- Only the pattern for characters begins with a quote. -/
theorem skipped_quote :
    skipped ('\'' :: rest) = Option.map Except.ok (afterChar ('\'' :: rest)) := rfl

theorem scan_quote_some (h : afterChar ('\'' :: rest) = some after) :
    scan size depth ('\'' :: rest) = scan size depth after :=
  scan_skipped (by simp) (by rw [skipped_quote, h, Option.map_some])

theorem scan_quote_none (h : afterChar ('\'' :: rest) = none) :
    scan size depth ('\'' :: rest) = scan size depth rest :=
  scan_other (by rw [skipped_quote, h, Option.map_none]) (by decide)

theorem scan_open : scan size depth ('{' :: rest) = scan size (depth + 1) rest := by
  rw [scan_char rfl, if_pos rfl]

theorem scan_close : scan size (depth + 2) ('}' :: rest) = scan size (depth + 1) rest := by
  rw [scan_char rfl, if_neg (by decide), if_pos rfl, if_neg (by omega)]
  rfl

theorem scan_last : scan size 1 ('}' :: rest) = .ok (size - (rest.length + 1)) := by
  rw [scan_char rfl, if_neg (by decide), if_pos rfl, if_pos rfl]
  rfl

end

end TopdeskMcp.ProductionCoverage
