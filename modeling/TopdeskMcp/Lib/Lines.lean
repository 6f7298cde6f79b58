import Mathlib.Data.List.Basic
import Mathlib.Tactic.Common

/-!
# Texts of lines, and records of lines

`split` is the `str.splitlines` of Python, and `join` ends each line with a newline.

Lines come in records that a marker ends, the last one perhaps without it. `records` are the
records that are not empty; a loop that gathers lines and hands on each record (`gather`, `finish`)
goes through just these (`foldlM_gather`).
-/

namespace Lines

universe u v

/-! ## Lines -/

/-- The boundaries of a line; a carriage return and the newline after it are one. -/
def isBreak (c : Char) : Bool :=
  [0x0a, 0x0b, 0x0c, 0x0d, 0x1c, 0x1d, 0x1e, 0x85, 0x2028, 0x2029].contains c.toNat

/-- With the characters of a line that has begun. -/
def splitFrom (line : List Char) : List Char → List (List Char)
  | [] => if line = [] then [] else [line]
  | '\r' :: '\n' :: text => line :: splitFrom [] text
  | c :: text => if isBreak c then line :: splitFrom [] text else splitFrom (line ++ [c]) text

def split (text : List Char) : List (List Char) := splitFrom [] text

def join (lines : List (List Char)) : List Char := lines.flatMap (· ++ ['\n'])

/-- A line as `split` leaves it. -/
def Whole (line : List Char) : Prop := ∀ c ∈ line, isBreak c = false

instance : DecidablePred Whole := fun line =>
  decidable_of_iff (line.all fun c => !isBreak c) (by simp [Whole])

theorem isBreak_of_isDigit {c : Char} (h : c.isDigit = true) : isBreak c = false := by
  have hdigit := Char.isDigit_iff_toNat.mp h
  have hbreaks : ∀ n ∈ [0x0a, 0x0b, 0x0c, 0x0d, 0x1c, 0x1d, 0x1e, 0x85, 0x2028, 0x2029],
      ¬ ('0'.toNat ≤ n ∧ n ≤ '9'.toNat) := by decide
  rw [Bool.eq_false_iff]
  intro hbreak
  exact hbreaks _ (List.contains_iff_mem.mp hbreak) hdigit

theorem whole_splitFrom {line text : List Char} (h : Whole line) :
    ∀ l ∈ splitFrom line text, Whole l := by
  fun_induction splitFrom line text with
  | case1 => simp
  | case2 line hne =>
      intro l hl
      rw [List.mem_singleton.mp hl]
      exact h
  | case3 line text ih =>
      intro l hl
      rcases List.mem_cons.mp hl with rfl | hl
      · exact h
      · exact ih (by simp [Whole]) l hl
  | case4 line c text _ hbreak ih =>
      intro l hl
      rcases List.mem_cons.mp hl with rfl | hl
      · exact h
      · exact ih (by simp [Whole]) l hl
  | case5 line c text _ hbreak ih =>
      refine ih fun d hd => ?_
      rcases List.mem_append.mp hd with hd | hd
      · exact h d hd
      · rw [List.mem_singleton.mp hd]
        simpa using hbreak

theorem whole_split {line text : List Char} (h : line ∈ split text) : Whole line :=
  whole_splitFrom (by simp [Whole]) line h

/-- A whole line and its newline are split off. -/
theorem splitFrom_append {front line text : List Char} (h : Whole line) :
    splitFrom front (line ++ '\n' :: text) = (front ++ line) :: splitFrom [] text := by
  induction line generalizing front with
  | nil =>
      rw [List.nil_append, List.append_nil, splitFrom]
      · rfl
      · simp
  | cons c line ih =>
      have hc : isBreak c = false := h c (by simp)
      rw [List.cons_append, splitFrom, hc, if_neg Bool.false_ne_true,
        ih fun d hd => h d (List.mem_cons_of_mem _ hd), List.append_assoc, List.singleton_append]
      rintro rest rfl -
      simp [isBreak] at hc

theorem split_join {lines : List (List Char)} (h : ∀ line ∈ lines, Whole line) :
    split (join lines) = lines := by
  induction lines with
  | nil => rfl
  | cons line lines ih =>
      have hrest := ih fun l hl => h l (List.mem_cons_of_mem _ hl)
      rw [join, List.flatMap_cons, List.append_assoc, split]
      show splitFrom [] (line ++ '\n' :: join lines) = _
      rw [splitFrom_append (h line (by simp)), List.nil_append]
      exact congrArg (List.cons line) hrest

/-- Lines that newlines separate, with one more at the end. -/
theorem intercalate_append {lines : List (List Char)} (hne : lines ≠ []) :
    ['\n'].intercalate lines ++ ['\n'] = join lines := by
  induction lines with
  | nil => exact absurd rfl hne
  | cons line lines ih =>
      cases lines with
      | nil => simp [join]
      | cons next lines =>
          rw [List.intercalate_cons_cons, List.append_assoc, List.append_assoc, ih (by simp),
            ← List.append_assoc]
          rfl

/-! ## Records -/

/-- Two steps succeed if the one does, and the other one with its result. -/
theorem bind_eq_ok_iff {ε : Type u} {α β : Type v} {x : Except ε α} {f : α → Except ε β} {b : β} :
    (x >>= f) = .ok b ↔ ∃ a, x = .ok a ∧ f a = .ok b := by
  cases x with
  | error e =>
      show Except.error e = Except.ok b ↔ _
      simp
  | ok a =>
      show f a = .ok b ↔ _
      simp

section

variable {α τ : Type u} {ε : Type v} [DecidableEq α] {marker : α}

def records (marker : α) (items : List α) : List (List α) :=
  (items.splitOn marker).filter (· ≠ [])

theorem records_of_notMem {items : List α} (h : marker ∉ items) (hne : items ≠ []) :
    records marker items = [items] := by
  rw [records, List.splitOn_eq_singleton h, List.filter_cons_of_pos (by simpa using hne),
    List.filter_nil]

theorem records_append {front items : List α} (h : marker ∉ front) (hne : front ≠ []) :
    records marker (front ++ marker :: items) = front :: records marker items := by
  rw [records, List.splitOn_append_cons_self_of_not_mem h,
    List.filter_cons_of_pos (by simpa using hne), records]

theorem records_cons (items : List α) :
    records marker (marker :: items) = records marker items := by
  have hsplit : (marker :: items).splitOn marker = [] :: items.splitOn marker :=
    List.splitOn_append_cons_self_of_not_mem (List.not_mem_nil (a := marker)) items
  rw [records, hsplit, List.filter_cons_of_neg (by simp), records]

/-- A record has items, and none of them is the marker. -/
theorem mem_records {items group : List α} (h : group ∈ records marker items) :
    group ≠ [] ∧ marker ∉ group ∧ group ⊆ items := by
  induction hlength : items.length using Nat.strongRecOn generalizing items with
  | _ n ih =>
      subst hlength
      by_cases hmem : marker ∈ items
      · obtain ⟨front, rest, rfl, hfront⟩ := List.eq_append_cons_of_mem hmem
        have hrest : group ∈ records marker rest → group ≠ [] ∧ marker ∉ group ∧
            group ⊆ front ++ marker :: rest := by
          intro hgroup
          obtain ⟨hne, hmarker, hsub⟩ := ih rest.length (by simp; omega) hgroup rfl
          exact ⟨hne, hmarker, fun x hx => by simp [hsub hx]⟩
        by_cases hne : front = []
        · rw [hne, List.nil_append, records_cons] at h
          exact hrest h
        · rw [records_append hfront hne] at h
          rcases List.mem_cons.mp h with rfl | h
          · exact ⟨hne, hfront, List.subset_append_left _ _⟩
          · exact hrest h
      · by_cases hne : items = []
        · subst hne
          simp [records] at h
        · rw [records_of_notMem hmem hne, List.mem_singleton] at h
          subst h
          exact ⟨hne, hmem, List.Subset.refl _⟩

/-- Records that are ended by the marker. -/
theorem records_flatMap {groups : List (List α)}
    (h : ∀ group ∈ groups, group ≠ [] ∧ marker ∉ group) :
    records marker (groups.flatMap (· ++ [marker])) = groups := by
  induction groups with
  | nil => rfl
  | cons group groups ih =>
      obtain ⟨hne, hmarker⟩ := h group (by simp)
      have hrest := ih fun g hg => h g (List.mem_cons_of_mem _ hg)
      rw [List.flatMap_cons, List.append_assoc, List.singleton_append,
        records_append hmarker hne, hrest]

/-- The loop over the items, with what has come of the records so far and the current one. -/
def gather (marker : α) (flush : τ → List α → Except ε τ) (state : τ × List α) (item : α) :
    Except ε (τ × List α) :=
  if item = marker then
    if state.2 = [] then .ok state else (flush state.1 state.2).map fun t => (t, [])
  else .ok (state.1, state.2 ++ [item])

/-- After the loop: the record that no marker ended. -/
def finish (flush : τ → List α → Except ε τ) (state : τ × List α) : Except ε τ :=
  if state.2 = [] then .ok state.1 else flush state.1 state.2

theorem foldlM_gather (flush : τ → List α → Except ε τ) (items : List α) {current : List α}
    (h : marker ∉ current) (t : τ) :
    (items.foldlM (gather marker flush) (t, current) >>= finish flush) =
      (records marker (current ++ items)).foldlM flush t := by
  induction items generalizing current t with
  | nil =>
      rw [List.append_nil]
      show finish flush (t, current) = _
      unfold finish
      by_cases hne : current = []
      · rw [if_pos hne, hne]
        rfl
      · rw [if_neg hne, records_of_notMem h hne, List.foldlM_cons]
        cases flush t current <;> rfl
  | cons item items ih =>
      rw [List.foldlM_cons]
      by_cases hitem : item = marker
      · subst hitem
        by_cases hne : current = []
        · have hstep : gather item flush (t, current) item = .ok (t, []) := by
            rw [gather, if_pos rfl, if_pos hne, hne]
          rw [hstep, hne, List.nil_append, records_cons]
          exact ih (by simp) t
        · have hstep : gather item flush (t, current) item =
              (flush t current).map fun t => (t, []) := by
            rw [gather, if_pos rfl, if_neg hne]
          rw [hstep, records_append h hne, List.foldlM_cons]
          cases flush t current with
          | error e => rfl
          | ok t' => exact ih (by simp) t'
      · have hstep : gather marker flush (t, current) item = .ok (t, current ++ [item]) := by
          rw [gather, if_neg hitem]
        have hnotin : marker ∉ current ++ [item] := by
          rw [List.mem_append, List.mem_singleton, not_or]
          exact ⟨h, fun heq => hitem heq.symm⟩
        rw [hstep, List.append_cons current item items]
        exact ih hnotin t

end

end Lines
