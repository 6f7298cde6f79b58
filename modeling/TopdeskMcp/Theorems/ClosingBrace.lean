import TopdeskMcp.Theorems.Scanner

/-!
# The closing brace of a test module

What one token does to the scanner goes on to all tokens before the closing brace (`scan_front`).
So the brace is found where no token is misread.
-/

namespace TopdeskMcp.Theorems.ClosingBrace

open TopdeskMcp.ProductionCoverage Rust Scanner

/-- The brace tokens balance, with `depth` braces opened before them. -/
def Balanced (depth : Nat) (tokens : List Token) : Prop :=
  tokens.count (.other '}') = tokens.count (.other '{') + depth

instance (depth : Nat) (tokens : List Token) : Decidable (Balanced depth tokens) :=
  inferInstanceAs (Decidable (_ = _))

/-- The closing brace of the one between `before` and the tokens is found. -/
structure FindsBrace (before : List Char) (tokens : List Token) : Prop where
  /-- The first brace at which the tokens balance. -/
  closes : ∀ front, front ++ [.other '}'] <+: tokens → Balanced 1 (front ++ [.other '}']) →
    (∀ p, p <+: front → ¬ Balanced 1 p) →
    matchingBrace (before ++ '{' :: textOf tokens) before.length =
      .ok (before.length + 1 + (textOf front).length)
  raises : (∀ p, p <+: tokens → ¬ Balanced 1 p) →
    matchingBrace (before ++ '{' :: textOf tokens) before.length =
      .error "unterminated #[cfg(test)] module"
  /-- There is an error only when there is none. -/
  total : ∀ error, matchingBrace (before ++ '{' :: textOf tokens) before.length = .error error →
    ∀ p, p <+: tokens → ¬ Balanced 1 p

/-- No token is misread before the brace. -/
def InStep (tokens : List Token) : Prop :=
  ∀ front token back, tokens = front ++ token :: back → (∀ p, p <+: front → ¬ Balanced 1 p) →
    ¬ Misread (textOf back) token

/-! ## All tokens up to the brace -/

section

variable {xid : Char → Bool} {size depth : Nat} {rest : List Char} {token : Token}

def depthAfter (depth : Nat) (token : Token) : Nat :=
  if token = .other '{' then depth + 1
  else if token = .other '}' then depth - 1
  else depth

/-- The same depth, counted from the first token on and from the second. -/
theorem depthAfter_add_count (token : Token) (tokens : List Token) (hdepth : depth ≠ 0) :
    depthAfter depth token + tokens.count (.other '{') + (token :: tokens).count (.other '}') =
      depth + (token :: tokens).count (.other '{') + tokens.count (.other '}') := by
  unfold depthAfter
  split
  · simp_all
    omega
  · split
    · simp_all
      omega
    · simp_all

theorem balanced_cons {tokens : List Token} (hdepth : depth ≠ 0) :
    Balanced depth (token :: tokens) ↔ Balanced (depthAfter depth token) tokens := by
  have hcount := depthAfter_add_count token tokens hdepth
  unfold Balanced
  omega

/-- Braces that balance somewhere balance for the first time after a closing one. -/
theorem exists_front (hdepth : depth ≠ 0) {tokens : List Token} (h : Balanced depth tokens) :
    ∃ front, front ++ [.other '}'] <+: tokens ∧ Balanced depth (front ++ [.other '}']) ∧
      ∀ p, p <+: front → ¬ Balanced depth p := by
  have hnil : ¬ Balanced depth [] := fun hnil => hdepth (by simpa [Balanced] using hnil.symm)
  induction tokens generalizing depth with
  | nil => exact absurd h hnil
  | cons token tokens ih =>
      by_cases hlast : token = .other '}' ∧ depth = 1
      · obtain ⟨rfl, rfl⟩ := hlast
        refine ⟨[], List.cons_prefix_cons.mpr ⟨rfl, List.nil_prefix⟩, rfl, ?_⟩
        intro p hp
        rwa [List.prefix_nil.mp hp]
      · have hafter : depthAfter depth token ≠ 0 := by
          unfold depthAfter
          split
          · omega
          · split
            · rename_i hclose
              have hone : depth ≠ 1 := fun hone => hlast ⟨hclose, hone⟩
              omega
            · exact hdepth
        have hnil' : ¬ Balanced (depthAfter depth token) [] :=
          fun hnil' => hafter (by simpa [Balanced] using hnil'.symm)
        obtain ⟨front, hstart, hbalanced, hfirst⟩ :=
          ih hafter ((balanced_cons hdepth).mp h) hnil'
        refine ⟨token :: front, List.cons_prefix_cons.mpr ⟨rfl, hstart⟩,
          (balanced_cons hdepth).mpr hbalanced, ?_⟩
        intro p hp
        cases p with
        | nil => exact hnil
        | cons head p =>
            obtain ⟨rfl, htail⟩ := List.cons_prefix_cons.mp hp
            exact fun hbalanced => hfirst p htail ((balanced_cons hdepth).mp hbalanced)

theorem scan_step (hwell : token.WellFormed xid) (hends : token.Ends xid rest)
    (hread : ¬ Misread rest token) (hdepth : depth ≠ 0) (hlast : ¬ Balanced depth [token]) :
    scan size depth (token.text ++ rest) = scan size (depthAfter depth token) rest := by
  unfold depthAfter
  split
  · rename_i hbrace
    subst hbrace
    exact scan_open
  · rename_i hopen
    split
    · rename_i hbrace
      subst hbrace
      have hone : depth ≠ 1 := by
        rintro rfl
        exact hlast rfl
      obtain ⟨outer, rfl⟩ : ∃ outer, depth = outer + 2 := ⟨depth - 2, by omega⟩
      exact scan_close
    · rename_i hclose
      exact scan_token hwell hends hread hdepth hopen hclose

/-- While the braces do not balance, the scanner is at the end of a token after each of them. -/
theorem scan_front {front back : List Token} (hlexed : Lexed xid (front ++ back))
    (hopen : ∀ p, p <+: front → ¬ Balanced depth p)
    (hread : ∀ before token after, front = before ++ token :: after →
      ¬ Misread (textOf (after ++ back)) token) :
    scan size depth (textOf (front ++ back)) =
      scan size (depth + front.count (.other '{') - front.count (.other '}')) (textOf back) := by
  induction front generalizing depth with
  | nil => rfl
  | cons token front ih =>
      rw [List.cons_append] at hlexed
      obtain _ | ⟨hwell, hends, hlexed⟩ := hlexed
      have hdepth : depth ≠ 0 := by
        rintro rfl
        exact hopen [] List.nil_prefix rfl
      have hlast : ¬ Balanced depth [token] :=
        hopen [token] (List.cons_prefix_cons.mpr ⟨rfl, List.nil_prefix⟩)
      have hopen' : ∀ p, p <+: front → ¬ Balanced (depthAfter depth token) p :=
        fun p hp hbalanced => hopen (token :: p) (List.cons_prefix_cons.mpr ⟨rfl, hp⟩)
          ((balanced_cons hdepth).mpr hbalanced)
      have hread' : ∀ before next after, front = before ++ next :: after →
          ¬ Misread (textOf (after ++ back)) next :=
        fun before next after heq =>
          hread (token :: before) next after (by rw [heq, List.cons_append])
      rw [List.cons_append, textOf_cons,
        scan_step hwell hends (hread [] token front rfl) hdepth hlast,
        ih hlexed hopen' hread']
      have hcount := depthAfter_add_count token front hdepth
      congr 1
      omega

/-- The first token that is misread is one that the scanner arrives at. -/
theorem reaches_misread {front back : List Token}
    (hlexed : Lexed xid (front ++ token :: back))
    (hopen : ∀ p, p <+: front → ¬ Balanced depth p) (hmisread : Misread (textOf back) token) :
    ∃ start next after depth', front ++ token :: back = start ++ next :: after ∧
      Misread (textOf after) next ∧
      scan size depth (textOf (front ++ token :: back)) =
        scan size depth' (next.text ++ textOf after) := by
  induction hlength : front.length using Nat.strongRecOn generalizing front back token with
  | ind n ih =>
      by_cases hread : ∀ before next after, front = before ++ next :: after →
          ¬ Misread (textOf (after ++ token :: back)) next
      · exact ⟨front, token, back, _, rfl, hmisread, scan_front hlexed hopen hread⟩
      · push Not at hread
        obtain ⟨start, next, after, rfl, hnext⟩ := hread
        have hshorter : start.length < n := by
          rw [← hlength, List.length_append, List.length_cons]
          omega
        rw [List.append_assoc, List.cons_append] at hlexed ⊢
        exact ih start.length hshorter hlexed
          (fun p hp => hopen p (hp.trans (List.prefix_append _ _))) hnext rfl

variable {before : List Char} {tokens : List Token}

theorem matchingBrace_eq_scan :
    matchingBrace (before ++ '{' :: textOf tokens) before.length =
      scan (before.length + 1 + (textOf tokens).length) 1 (textOf tokens) := by
  have hlength : (before ++ '{' :: textOf tokens).length =
      before.length + 1 + (textOf tokens).length := by
    simp
    omega
  have hdrop : (before ++ '{' :: textOf tokens).drop (before.length + 1) = textOf tokens := by
    simp [List.drop_append]
  rw [matchingBrace, hlength, hdrop]

/-- The brace is found, if the tokens balance somewhere. -/
theorem matchingBrace_of_front {front : List Token} (hlexed : Lexed xid tokens)
    (hstep : InStep tokens) (hstart : front ++ [.other '}'] <+: tokens)
    (hbalanced : Balanced 1 (front ++ [.other '}'])) (hfirst : ∀ p, p <+: front → ¬ Balanced 1 p) :
    matchingBrace (before ++ '{' :: textOf tokens) before.length =
      .ok (before.length + 1 + (textOf front).length) := by
  obtain ⟨back, rfl⟩ := hstart
  rw [List.append_assoc] at hlexed hstep ⊢
  have hread : ∀ before token after, front = before ++ token :: after →
      ¬ Misread (textOf (after ++ ([.other '}'] ++ back))) token := by
    rintro start token after rfl
    exact hstep start token (after ++ ([.other '}'] ++ back)) (by simp)
      fun p hp => hfirst p (hp.trans (List.prefix_append _ _))
  have hone : 1 + front.count (.other '{') - front.count (.other '}') = 1 := by
    simp only [Balanced, List.count_append] at hbalanced
    simp at hbalanced
    omega
  rw [matchingBrace_eq_scan, scan_front hlexed hfirst hread, hone]
  show scan _ 1 ('}' :: textOf back) = _
  rw [scan_last]
  congr 1
  simp [Token.text]
  omega

theorem matchingBrace_of_open (hlexed : Lexed xid tokens) (hstep : InStep tokens)
    (hnone : ∀ p, p <+: tokens → ¬ Balanced 1 p) :
    matchingBrace (before ++ '{' :: textOf tokens) before.length =
      .error "unterminated #[cfg(test)] module" := by
  have hread : ∀ before token after, tokens = before ++ token :: after →
      ¬ Misread (textOf (after ++ [])) token := by
    intro start token after heq
    rw [List.append_nil]
    exact hstep start token after heq fun p hp =>
      hnone p (heq ▸ hp.trans (List.prefix_append _ _))
  have hall : scan (before.length + 1 + (textOf tokens).length) 1 (textOf (tokens ++ [])) = _ :=
    scan_front (by rwa [List.append_nil]) hnone hread
  rw [List.append_nil] at hall
  rw [matchingBrace_eq_scan, hall, textOf_nil, scan]

end

/-- **The closing brace.** Where no token is misread before it, the first brace at which the
tokens balance is found, and there is an error only when there is none. -/
theorem finds_brace (xid : Char → Bool) (before : List Char) (tokens : List Token)
    (hlexed : Lexed xid tokens) (hstep : InStep tokens) : FindsBrace before tokens where
  closes := fun _ => matchingBrace_of_front hlexed hstep
  raises := matchingBrace_of_open hlexed hstep
  total := by
    intro error herror p hp hbalanced
    obtain ⟨front, hstart, hfront, hfirst⟩ := exists_front (by omega) hbalanced
    rw [matchingBrace_of_front hlexed hstep (hstart.trans hp) hfront hfirst] at herror
    simp at herror

/-! ## An array of two characters -/

/-- Between the characters is a comma. -/
def array : List Token :=
  [.other '[', .char (.hex '4' '1'), .other ',', .char (.plain '}'), .other ']', .other '}']

/-- A space comes after the comma, and then a string. -/
def spaced : List Token :=
  [.char (.hex '4' '1'), .other ',', .other ' ', .string [.plain '}'], .other '}']

theorem lexed_other {xid : Char → Bool} {c : Char} {tokens : List Token}
    (hspecial : c ≠ '"' ∧ c ≠ '\'' ∧ c ≠ '/') (hident : isIdent xid c = false)
    (h : Lexed xid tokens) : Lexed xid (.other c :: tokens) := by
  obtain ⟨hquote, hchar, hslash⟩ := hspecial
  exact .cons ⟨hquote, hchar, by simp [hident]⟩ (fun hc => absurd hc hslash) h

theorem lexed_array : Lexed (fun _ => false) array :=
  lexed_other (by decide) rfl <|
  .cons ⟨rfl, rfl⟩ trivial <|
  lexed_other (by decide) rfl <|
  .cons (by simp [Token.WellFormed, CharBody.WellFormed]) trivial <|
  lexed_other (by decide) rfl <|
  lexed_other (by decide) rfl .nil

/-- What is read after the comma is the brace in quotes. -/
theorem matchingBrace_array : matchingBrace ('{' :: textOf array) 0 = .ok 10 :=
  calc
    scan 14 1 (textOf array)
      = scan 14 1 ((Token.char (.hex '4' '1')).text ++ textOf (array.drop 2)) :=
        scan_other rfl (by decide)
    _ = scan 14 1 ('\'' :: textOf (array.drop 2)) := scan_hex ⟨rfl, rfl⟩
    _ = scan 14 1 ('}' :: '\'' :: textOf (array.drop 4)) := scan_quote_some rfl
    _ = .ok 10 := scan_last

theorem finds_brace_fails : textOf array = "['\\x41','\x7d']\x7d".toList ∧
    Lexed (fun _ => false) array ∧ ¬ FindsBrace [] array := by
  refine ⟨rfl, lexed_array, ?_⟩
  intro h
  have hopen : ∀ p ∈ (array.take 5).inits, ¬ Balanced 1 p := by decide
  have hclose := h.closes (array.take 5) (List.prefix_refl array) (by decide)
    fun p hp => hopen p (List.mem_inits p _ |>.mpr hp)
  have hfound := matchingBrace_array.symm.trans hclose
  exact absurd (Except.ok.inj hfound) (by decide)

/-- A blank in quotes instead of the brace. -/
def blank : List Token :=
  [.char (.hex '4' '1'), .other ',', .char (.plain ' '), .other '}']

/-- What is misread does no harm as long as nothing in it counts, so that `InStep` is not needed
for the brace to be found. -/
theorem matchingBrace_blank : ¬ InStep blank ∧ matchingBrace ('{' :: textOf blank) 0 = .ok 11 := by
  constructor
  · intro h
    have hopen : ∀ p, p <+: ([] : List Token) → ¬ Balanced 1 p := by
      intro p hp
      rw [List.prefix_nil.mp hp]
      decide
    exact h [] _ _ rfl hopen (by decide : (afterChar ('\'' :: textOf blank.tail)).isSome)
  · calc
      scan 12 1 (textOf blank)
        = scan 12 1 ('\'' :: textOf blank.tail) := scan_hex ⟨rfl, rfl⟩
      _ = scan 12 1 (' ' :: '\'' :: textOf (blank.drop 3)) := scan_quote_some rfl
      _ = scan 12 1 ('\'' :: textOf (blank.drop 3)) := scan_other rfl (by decide)
      _ = scan 12 1 (textOf (blank.drop 3)) := scan_other rfl (by decide)
      _ = .ok 11 := scan_last

theorem finds_brace_spaced : FindsBrace "mod tests ".toList spaced := by
  refine finds_brace (fun _ => false) _ spaced ?_ ?_
  · exact .cons ⟨rfl, rfl⟩ trivial <|
      lexed_other (by decide) rfl <|
      lexed_other (by decide) rfl <|
      .cons (by simp [Token.WellFormed, StringItem.WellFormed]) trivial <|
      lexed_other (by decide) rfl .nil
  · intro front token back heq _
    cases front with
    | nil =>
        obtain ⟨rfl, rfl⟩ := List.cons.inj heq
        exact (by decide : ¬ (afterChar ('\'' :: textOf spaced.tail)).isSome)
    | cons first front =>
        have hmem : token ∈ spaced.tail := by
          rw [heq]
          simp
        have hkinds : token = .other ',' ∨ token = .other ' ' ∨ token = .string [.plain '}'] ∨
            token = .other '}' := by
          simpa [spaced] using hmem
        rcases hkinds with rfl | rfl | rfl | rfl <;> exact id

end TopdeskMcp.Theorems.ClosingBrace
