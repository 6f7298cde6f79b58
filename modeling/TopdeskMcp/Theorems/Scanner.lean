import TopdeskMcp.Lib.RustTokens
import TopdeskMcp.Scripts.ProductionCoverage

/-!
# The scanner of the coverage gate and a token

The scanner is at the next token after one step or more for a token (`scan_token`), unless the
token is misread: the pattern for characters does not know the escapes with digits, so that their
closing quote may open a character that there is not, and the one for raw strings does not see
that its `r` ends a word.
-/

namespace TopdeskMcp.Theorems.Scanner

open TopdeskMcp.ProductionCoverage Rust

/-- A word ends in `r`, and hashes, perhaps none, and a quote come after it. -/
def EndsInPrefix (name rest : List Char) : Prop :=
  name.getLast? = some 'r' ∧ (rawStart ('r' :: rest)).isSome

/-- The end of a token is taken for the beginning of a literal with what comes after it. -/
def Misread (rest : List Char) : Token → Prop
  | .char (.hex _ _) | .char (.unicode _) => (afterChar ('\'' :: rest)).isSome
  | .lifetime name | .word name => EndsInPrefix name rest
  | _ => False

/-! ## What is left out as a whole -/

section

variable {rest : List Char}

theorem afterLine_append {body : List Char} (hbody : '\n' ∉ body)
    (hrest : ∀ c ∈ rest.head?, c = '\n') : afterLine (body ++ rest) = rest.drop 1 := by
  have hall : ∀ c ∈ body, (c != '\n') = true := by
    intro c hc
    have hne : c ≠ '\n' := fun heq => hbody (heq ▸ hc)
    simpa using hne
  rw [afterLine, List.dropWhile_append_of_pos hall]
  cases rest with
  | nil => rfl
  | cons c rest =>
      obtain rfl := hrest c rfl
      rfl

/-- Nothing in the body closes the comment. -/
theorem afterComment_nested {body : List Char} (h : Nested body) (depth : Nat)
    (rest : List Char) :
    afterComment (depth + 1) (body ++ '*' :: '/' :: rest) = afterComment depth rest := by
  induction h generalizing depth rest with
  | nil => rfl
  | @char c body hopen hclose h ih =>
      rw [List.cons_append, afterComment.eq_5 _ _ _ _ _, ih depth rest]
      · intro tail hc htail
        cases body with
        | nil => exact hopen hc rfl
        | cons d body => exact hopen hc (congrArg List.head? htail)
      · intro tail hc htail
        cases body with
        | nil => simp at htail
        | cons d body => exact hclose hc (congrArg List.head? htail)
  | @nest inner body hinner h ihinner ih =>
      have hopened : afterComment (depth + 1) ('/' :: '*' :: (inner ++ '*' :: '/' ::
          (body ++ '*' :: '/' :: rest))) = _ := ihinner (depth + 1) _
      rw [ih depth rest] at hopened
      simpa using hopened

theorem afterString_items {items : List StringItem} (h : ∀ item ∈ items, item.WellFormed) :
    afterString (items.flatMap StringItem.text ++ '"' :: rest) = rest := by
  induction items with
  | nil => rfl
  | cons item items ih =>
      rw [List.forall_mem_cons] at h
      rw [List.flatMap_cons, List.append_assoc]
      cases item with
      | plain c =>
          obtain ⟨hquote, hescape⟩ := h.1
          show afterString (c :: (items.flatMap StringItem.text ++ '"' :: rest)) = rest
          rw [afterString.eq_5 _ _ (fun hc _ => hescape hc) (fun _ _ hc _ => hescape hc) hquote]
          exact ih h.2
      | escape c => exact ih h.2

theorem hashesAndQuote_replicate (n hashes : Nat) (rest : List Char) :
    hashesAndQuote n (List.replicate hashes '#' ++ '"' :: rest) = some (n + hashes, rest) := by
  induction hashes generalizing n with
  | zero => rfl
  | succ hashes ih =>
      show hashesAndQuote (n + 1) (List.replicate hashes '#' ++ '"' :: rest) = _
      rw [ih, Nat.add_assoc, Nat.add_comm 1]

/-- A terminator begins with the only quote it has, so none begins in the body and ends after
it. -/
theorem not_terminator_prefix {hashes : Nat} {body : List Char}
    (h : ¬ terminator hashes <:+: body) (hbody : body ≠ []) (rest : List Char) :
    ¬ terminator hashes <+: body ++ (terminator hashes ++ rest) := by
  intro hstart
  by_cases hlength : (terminator hashes).length ≤ body.length
  · exact h (List.prefix_of_prefix_length_le hstart (List.prefix_append _ _) hlength).isInfix
  · obtain ⟨c, body, rfl⟩ := List.exists_cons_of_ne_nil hbody
    have hquote := List.prefix_iff_getElem?.mp hstart (body.length + 1) (by simpa using hlength)
    simp [terminator] at hquote

theorem afterTerminator_body {hashes : Nat} {body : List Char}
    (h : ¬ terminator hashes <:+: body) (rest : List Char) :
    afterTerminator (terminator hashes) (body ++ (terminator hashes ++ rest)) = some rest := by
  induction body with
  | nil =>
      rw [List.nil_append, terminator, List.cons_append, afterTerminator, if_pos (by simp)]
      simp
  | cons c body ih =>
      have hnot : ¬ (terminator hashes).isPrefixOf (c :: (body ++ (terminator hashes ++ rest))) :=
        fun hstart => not_terminator_prefix h (List.cons_ne_nil c body) rest
          (List.isPrefixOf_iff_prefix.mp hstart)
      rw [List.cons_append, afterTerminator, if_neg hnot]
      exact ih fun hin => h (hin.trans (List.suffix_cons c body).isInfix)

theorem afterChar_of_ne {c : Char} (h : c ≠ '\'') : afterChar (c :: rest) = none :=
  afterChar.eq_3 _ (fun _ _ heq => h (List.cons.inj heq).1) fun _ _ heq => h (List.cons.inj heq).1

theorem afterChar_plain {c : Char} (h : (CharBody.plain c).WellFormed) :
    afterChar ('\'' :: c :: '\'' :: rest) = some rest := by
  obtain ⟨hquote, hescape, hline⟩ := h
  rw [afterChar.eq_2 _ _ fun _ heq _ => hescape heq, if_neg (by simp [hquote, hescape, hline])]

theorem afterChar_escape {c : Char} (h : (CharBody.escape c).WellFormed) :
    afterChar ('\'' :: '\\' :: c :: '\'' :: rest) = some rest := by
  have hline : c ≠ '\n' := by
    rintro rfl
    simp [CharBody.WellFormed] at h
  rw [afterChar.eq_1, if_neg hline]

end

/-! ## Words -/

section

variable {xid : Char → Bool} {size depth : Nat} {rest name : List Char} {c d : Char}

theorem ne_of_isIdent (h : isIdent xid c) (hd : isIdent xid d = false) : c ≠ d := by
  rintro rfl
  rw [hd] at h
  simp at h

theorem hashesAndQuote_of_isIdent (h : isIdent xid c) (n : Nat) :
    hashesAndQuote n (c :: rest) = none :=
  hashesAndQuote.eq_3 n _ (fun _ heq => ne_of_isIdent h (d := '#') rfl (List.cons.inj heq).1)
    (fun _ heq => ne_of_isIdent h (d := '"') rfl (List.cons.inj heq).1)

theorem EndsInPrefix.cons (h : EndsInPrefix name rest) (c : Char) :
    EndsInPrefix (c :: name) rest := by
  obtain ⟨hlast, hstart⟩ := h
  refine ⟨?_, hstart⟩
  rw [List.getLast?_cons, hlast]
  rfl

/-- The letter is the last one of the word, or one that is no part of a prefix comes after it. -/
theorem rawStart_r (hname : ∀ c ∈ name, isIdent xid c) (h : ¬ EndsInPrefix ('r' :: name) rest) :
    rawStart ('r' :: (name ++ rest)) = none := by
  cases name with
  | nil =>
      by_contra hsome
      exact h ⟨rfl, Option.isSome_iff_ne_none.mpr hsome⟩
  | cons d name => exact hashesAndQuote_of_isIdent (hname d List.mem_cons_self) 0

theorem rawStart_word (hname : ∀ c ∈ name, isIdent xid c)
    (hrest : ∀ c ∈ rest.head?, ¬ isIdent xid c) (h : ¬ EndsInPrefix (c :: name) rest) :
    rawStart (c :: (name ++ rest)) = none := by
  by_cases hr : c = 'r'
  · subst hr
    exact rawStart_r hname h
  · by_cases hb : c = 'b' ∧ (name ++ rest).head? = some 'r'
    · obtain ⟨rfl, hhead⟩ := hb
      cases name with
      | nil => exact absurd rfl (hrest 'r' hhead)
      | cons d name =>
          obtain rfl : d = 'r' := Option.some.inj hhead
          exact rawStart_r (fun c hc => hname c (List.mem_cons_of_mem _ hc)) h
    · refine rawStart.eq_3 _ ?_ ?_
      · intro tail heq
        obtain ⟨hc, htail⟩ := List.cons.inj heq
        exact hb ⟨hc, congrArg List.head? htail⟩
      · intro tail heq
        exact hr (List.cons.inj heq).1

/-- The characters of a word are looked at one by one. -/
theorem scan_word (hname : ∀ c ∈ name, isIdent xid c)
    (hrest : ∀ c ∈ rest.head?, ¬ isIdent xid c) (h : ¬ EndsInPrefix name rest) :
    scan size depth (name ++ rest) = scan size depth rest := by
  induction name with
  | nil => rfl
  | cons c name ih =>
      rw [List.forall_mem_cons] at hname
      have hne : ∀ d, isIdent xid d = false → c ≠ d := fun d => ne_of_isIdent hname.1
      have hskip : skipped (c :: (name ++ rest)) = none :=
        skipped_eq_none (fun hc => absurd hc (hne '/' rfl)) (rawStart_word hname.2 hrest h)
          (hne '"' rfl) (afterChar_of_ne (hne '\'' rfl))
      rw [List.cons_append, scan_other hskip ⟨hne '{' rfl, hne '}' rfl⟩]
      exact ih hname.2 fun hname => h (hname.cons c)

end

/-! ## Digits -/

section

variable {xid : Char → Bool} {size depth : Nat} {rest : List Char}

theorem isIdent_of_isHexDigit {c : Char} (h : isHexDigit c) : isIdent xid c := by
  have hsmall : c.toNat < 103 := by
    by_contra hlarge
    have hf : 'f'.toNat = 102 := rfl
    rw [isHexDigit, Hex.value_eq_none (.inr (by omega))] at h
    simp at h
  have hall : ∀ n : Fin 103, isHexDigit (Char.ofNat n) → (Char.ofNat n).isAlphanum := by decide
  have halnum := hall ⟨c.toNat, hsmall⟩
  rw [Char.ofNat_toNat] at halnum
  rw [isIdent, halnum h]
  rfl

/-- The digits of an escape are a word that does not end in `r`. -/
theorem not_endsInPrefix_digits {digits : List Char} (h : ∀ c ∈ digits, isHexDigit c ∨ c = '_') :
    ¬ EndsInPrefix digits rest := by
  rintro ⟨hlast, -⟩
  rcases h 'r' (List.mem_of_getLast? hlast) with hdigit | heq
  · exact absurd hdigit (by decide)
  · exact absurd heq (by decide)

theorem isIdent_of_digit {c : Char} (h : isHexDigit c ∨ c = '_') : isIdent xid c := by
  rcases h with hdigit | rfl
  · exact isIdent_of_isHexDigit hdigit
  · rfl

/-- The quote and the backslash of an escape with digits are looked at on their own. -/
theorem scan_escape {c : Char} (hquote : c ≠ '\'') (hrest : rest.head? ≠ some '\'') :
    scan size depth ('\'' :: '\\' :: c :: rest) = scan size depth (c :: rest) := by
  have hnone : afterChar ('\'' :: '\\' :: c :: rest) = none := by
    refine afterChar.eq_3 _ ?_ ?_
    · intro d tail heq
      simp only [List.cons.injEq, true_and] at heq
      exact hrest (congrArg List.head? heq.2)
    · intro d tail heq
      simp only [List.cons.injEq, true_and] at heq
      exact hquote heq.2.1
  rw [scan_quote_none hnone, scan_other rfl (by decide)]

/-- A word is looked at up to a character that is in none. -/
theorem scan_word_until (xid : Char → Bool) {name : List Char} {c : Char}
    (hname : ∀ d ∈ name, isIdent xid d) (hc : isIdent xid c = false)
    (h : ¬ EndsInPrefix name (c :: rest)) :
    scan size depth (name ++ c :: rest) = scan size depth (c :: rest) := by
  refine scan_word hname ?_ h
  intro d hd
  obtain rfl : c = d := Option.some.inj hd
  simp [hc]

theorem scan_hex {high low : Char} (h : (CharBody.hex high low).WellFormed) :
    scan size depth ((Token.char (.hex high low)).text ++ rest) =
      scan size depth ('\'' :: rest) := by
  obtain ⟨hhigh, hlow⟩ := h
  have hword : ∀ c ∈ ['x', high, low], isIdent (fun _ => false) c := by
    intro c hc
    rcases List.mem_cons.mp hc with rfl | hc
    · rfl
    rcases List.mem_cons.mp hc with rfl | hc
    · exact isIdent_of_isHexDigit hhigh
    · exact List.mem_singleton.mp hc ▸ isIdent_of_isHexDigit hlow
  have hread : ¬ EndsInPrefix ['x', high, low] ('\'' :: rest) := by
    rintro ⟨hlast, -⟩
    obtain rfl : low = 'r' := Option.some.inj hlast
    exact absurd hlow (by decide)
  have hhead : (high :: low :: '\'' :: rest).head? ≠ some '\'' := by
    intro heq
    obtain rfl : high = '\'' := Option.some.inj heq
    exact absurd hhigh (by decide)
  show scan size depth ('\'' :: '\\' :: 'x' :: high :: low :: '\'' :: rest) = _
  rw [scan_escape (by decide) hhead]
  exact scan_word_until _ hword rfl hread

/-- The braces of the escape are counted, and balance. -/
theorem scan_unicode {digits : List Char} (h : (CharBody.unicode digits).WellFormed)
    (hdepth : depth ≠ 0) :
    scan size depth ((Token.char (.unicode digits)).text ++ rest) =
      scan size depth ('\'' :: rest) := by
  obtain ⟨depth, rfl⟩ := Nat.exists_eq_succ_of_ne_zero hdepth
  have htext : (Token.char (.unicode digits)).text ++ rest =
      '\'' :: '\\' :: 'u' :: '{' :: (digits ++ '}' :: '\'' :: rest) := by
    simp [Token.text, CharBody.text]
  have hu : scan size (depth + 1) (['u'] ++ '{' :: (digits ++ '}' :: '\'' :: rest)) = _ :=
    scan_word_until (fun _ => false) (by simp; rfl) rfl (fun h => absurd h.1 (by decide))
  have hdigits : scan size (depth + 2) (digits ++ '}' :: '\'' :: rest) = _ :=
    scan_word_until (fun _ => false) (fun c hc => isIdent_of_digit (h c hc)) rfl
      (not_endsInPrefix_digits h)
  rw [htext, scan_escape (by decide) (by simp)]
  exact hu.trans (scan_open.trans (hdigits.trans scan_close))

end

/-! ## Tokens -/

section

variable {xid : Char → Bool} {size depth : Nat} {rest : List Char}

theorem scan_lineComment {body : List Char} (hbody : '\n' ∉ body)
    (hrest : ∀ c ∈ rest.head?, c = '\n') :
    scan size depth ((Token.lineComment body).text ++ rest) = scan size depth rest := by
  have hskip : skipped ('/' :: '/' :: (body ++ rest)) = some (.ok (rest.drop 1)) := by
    show some (Except.ok (afterLine (body ++ rest))) = _
    rw [afterLine_append hbody hrest]
  show scan size depth ('/' :: '/' :: (body ++ rest)) = _
  rw [scan_skipped (by simp) hskip]
  -- The newline is left out with the comment.
  cases rest with
  | nil => rfl
  | cons c rest =>
      obtain rfl := hrest c rfl
      exact (scan_other rfl (by decide)).symm

theorem scan_blockComment {body : List Char} (h : Nested body) :
    scan size depth ((Token.blockComment body).text ++ rest) = scan size depth rest := by
  have htext : (Token.blockComment body).text ++ rest =
      '/' :: '*' :: (body ++ '*' :: '/' :: rest) := by
    simp [Token.text]
  have hskip : skipped ('/' :: '*' :: (body ++ '*' :: '/' :: rest)) = some (.ok rest) := by
    show some (Except.ok (afterComment 1 (body ++ '*' :: '/' :: rest))) = _
    rw [afterComment_nested h 0 rest, afterComment]
  rw [htext, scan_skipped (by simp) hskip]

theorem scan_string {items : List StringItem} (h : ∀ item ∈ items, item.WellFormed) :
    scan size depth ((Token.string items).text ++ rest) = scan size depth rest := by
  have htext : (Token.string items).text ++ rest =
      '"' :: (items.flatMap StringItem.text ++ '"' :: rest) := by
    simp [Token.text]
  have hskip : skipped ('"' :: (items.flatMap StringItem.text ++ '"' :: rest)) =
      some (.ok rest) := by
    show some (Except.ok (afterString _)) = _
    rw [afterString_items h]
  rw [htext, scan_skipped (by simp) hskip]

theorem scan_rawString {start : RawPrefix} {hashes : Nat} {body : List Char}
    (h : ¬ terminator hashes <:+: body) :
    scan size depth ((Token.rawString start hashes body).text ++ rest) =
      scan size depth rest := by
  have htext : (Token.rawString start hashes body).text ++ rest = start.text ++
      (List.replicate hashes '#' ++ '"' :: (body ++ (terminator hashes ++ rest))) := by
    simp [Token.text]
  have hstart := hashesAndQuote_replicate 0 hashes (body ++ (terminator hashes ++ rest))
  rw [Nat.zero_add] at hstart
  have hend := afterTerminator_body h rest
  rw [htext]
  cases start with
  | r => exact scan_skipped (by simp [RawPrefix.text]) (skipped_raw hstart hend)
  | br => exact scan_skipped (by simp [RawPrefix.text]) (skipped_raw hstart hend)
  | cr =>
      -- The pattern does not know this prefix, but what it knows begins at the second letter.
      refine (scan_other rfl (by decide)).trans ?_
      exact scan_skipped (by simp) (skipped_raw hstart hend)

theorem scan_charBody {body : CharBody} (hbody : body.WellFormed)
    (hread : ¬ Misread rest (.char body)) (hdepth : depth ≠ 0) :
    scan size depth ((Token.char body).text ++ rest) = scan size depth rest := by
  -- The closing quote of an escape with digits.
  have hclose : ¬ (afterChar ('\'' :: rest)).isSome →
      scan size depth ('\'' :: rest) = scan size depth rest :=
    fun hnone => scan_quote_none (by simpa using hnone)
  cases body with
  | plain c => exact scan_quote_some (afterChar_plain hbody)
  | escape c => exact scan_quote_some (afterChar_escape hbody)
  | hex high low => rw [scan_hex hbody, hclose hread]
  | unicode digits => rw [scan_unicode hbody hdepth, hclose hread]

theorem scan_lifetime {name : List Char} (hne : name ≠ []) (hname : ∀ c ∈ name, isIdent xid c)
    (hrest : ∀ c ∈ rest.head?, ¬ isIdent xid c ∧ c ≠ '\'') (h : ¬ EndsInPrefix name rest) :
    scan size depth ((Token.lifetime name).text ++ rest) = scan size depth rest := by
  have hnone : afterChar ('\'' :: (name ++ rest)) = none := by
    obtain ⟨c, name, rfl⟩ := List.exists_cons_of_ne_nil hne
    rw [List.forall_mem_cons] at hname
    refine afterChar.eq_3 _ ?_ ?_
    · intro d tail heq
      simp only [List.cons_append, List.cons.injEq, true_and] at heq
      exact ne_of_isIdent hname.1 rfl heq.1
    · intro d tail heq
      simp only [List.cons_append, List.cons.injEq, true_and] at heq
      cases name with
      | nil => exact (hrest '\'' (congrArg List.head? heq.2)).2 rfl
      | cons e name =>
          exact ne_of_isIdent (hname.2 e List.mem_cons_self) rfl (List.cons.inj heq.2).1
  show scan size depth ('\'' :: (name ++ rest)) = _
  rw [scan_quote_none hnone]
  exact scan_word hname (fun c hc => (hrest c hc).1) h

theorem scan_otherChar {c : Char} (hwell : (Token.other c).WellFormed xid)
    (hends : (Token.other c).Ends xid rest) (hbrace : c ≠ '{' ∧ c ≠ '}') :
    scan size depth (c :: rest) = scan size depth rest := by
  obtain ⟨hquote, hchar, hident⟩ := hwell
  have hraw : rawStart (c :: rest) = none := by
    refine rawStart.eq_3 _ ?_ ?_
    · intro tail heq
      exact hident ((List.cons.inj heq).1 ▸ rfl)
    · intro tail heq
      exact hident ((List.cons.inj heq).1 ▸ rfl)
  exact scan_other (skipped_eq_none hends hraw hquote (afterChar_of_ne hchar)) hbrace

/-- A token that is not misread is passed. -/
theorem scan_token {token : Token} (hwell : token.WellFormed xid) (hends : token.Ends xid rest)
    (hread : ¬ Misread rest token) (hdepth : depth ≠ 0) (hopen : token ≠ .other '{')
    (hclose : token ≠ .other '}') :
    scan size depth (token.text ++ rest) = scan size depth rest := by
  cases token with
  | lineComment body => exact scan_lineComment hwell hends
  | blockComment body => exact scan_blockComment hwell
  | string items => exact scan_string hwell
  | rawString start hashes body => exact scan_rawString hwell
  | char body => exact scan_charBody hwell hread hdepth
  | lifetime name => exact scan_lifetime hwell.1 hwell.2 hends hread
  | word name => exact scan_word hwell.2 hends hread
  | other c =>
      exact scan_otherChar hwell hends ⟨fun hc => hopen (hc ▸ rfl), fun hc => hclose (hc ▸ rfl)⟩

end

end TopdeskMcp.Theorems.Scanner
