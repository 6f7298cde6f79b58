import Mathlib.Data.List.AList
import Mathlib.Data.String.Basic

/-!
# Counters (`http/metrics.rs`)

The counters of the process, and the text that `/metrics` answers. The map is walked in no
particular order; the lines are sorted, so the text does not depend on it
(`renderMetrics_perm`).
-/

namespace TopdeskMcp.Metrics

/-- `COUNTERS`. -/
abbrev Counters := AList fun _ : String => UInt64

def increment (name : String) (counters : Counters) : Counters :=
  counters.insert name ((counters.lookup name).getD 0 + 1)

/-- The entries, in the order of the association list. -/
def entries (counters : Counters) : List (String × UInt64) :=
  AList.entries counters |>.map fun entry => (entry.1, entry.2)

def line (entry : String × UInt64) : String := entry.1 ++ " " ++ entry.2.toNat.repr

/-- The text, from the entries in the order they are walked in. -/
def renderMetrics (entries : List (String × UInt64)) : String :=
  "\n".intercalate ((entries.map line).mergeSort (fun a b => decide (a ≤ b)) ++ [""])

/-- Strings are sorted in one way only. -/
theorem renderMetrics_perm {entries entries' : List (String × UInt64)}
    (h : entries.Perm entries') : renderMetrics entries = renderMetrics entries' := by
  have hsort : (entries.map line).mergeSort (fun a b => decide (a ≤ b)) =
      (entries'.map line).mergeSort (fun a b => decide (a ≤ b)) := by
    have htrans : ∀ a b c : String, decide (a ≤ b) = true → decide (b ≤ c) = true →
        decide (a ≤ c) = true := by
      intro a b c hab hbc
      exact decide_eq_true ((of_decide_eq_true hab).trans (of_decide_eq_true hbc))
    have htotal : ∀ a b : String, (decide (a ≤ b) || decide (b ≤ a)) = true := by
      intro a b
      simpa using le_total a b
    have hperm : ((entries.map line).mergeSort fun a b => decide (a ≤ b)).Perm
        ((entries'.map line).mergeSort fun a b => decide (a ≤ b)) :=
      (List.mergeSort_perm _ _).trans ((h.map line).trans (List.mergeSort_perm _ _).symm)
    refine hperm.eq_of_pairwise ?_ (List.pairwise_mergeSort htrans htotal _)
      (List.pairwise_mergeSort htrans htotal _)
    intro a b _ _ hab hba
    exact le_antisymm (of_decide_eq_true hab) (of_decide_eq_true hba)
  rw [renderMetrics, renderMetrics, hsort]

/-! ## One counter -/

/-- A process that counts under one name, and how often it did. -/
def counted (name : String) : Nat → Counters
  | 0 => ∅
  | n + 1 => increment name (counted name n)

theorem lookup_counted (name : String) (n : Nat) :
    (counted name n).lookup name = if n = 0 then none else some (UInt64.ofNat n) := by
  induction n with
  | zero => rfl
  | succ n ih =>
      show AList.lookup name (increment name (counted name n)) = _
      rw [increment, AList.lookup_insert, ih]
      by_cases hzero : n = 0
      · subst hzero
        rfl
      · rw [if_neg hzero, if_neg (Nat.succ_ne_zero n)]
        simp [UInt64.ofNat_add]

theorem entries_counted (name : String) (n : Nat) :
    entries (counted name (n + 1)) = [(name, UInt64.ofNat (n + 1))] := by
  have hkeys : ∀ n, AList.keys (counted name (n + 1)) = [name] := by
    intro n
    induction n with
    | zero => rfl
    | succ n ih =>
        show AList.keys (increment name (counted name (n + 1))) = [name]
        rw [increment, AList.keys_insert, ih]
        simp
  have hlookup := lookup_counted name (n + 1)
  rw [if_neg (Nat.succ_ne_zero n)] at hlookup
  obtain ⟨entry, hentry⟩ : ∃ entry, AList.entries (counted name (n + 1)) = [entry] := by
    have hlength := congrArg List.length (hkeys n)
    rw [AList.keys, List.keys, List.length_map] at hlength
    exact List.length_eq_one_iff.mp hlength
  have hmem := AList.mem_lookup_iff.mp hlookup
  rw [hentry, List.mem_singleton] at hmem
  rw [entries, hentry, ← hmem]
  rfl

/-- The text of a single counter. -/
theorem renderMetrics_counted (name : String) (n : Nat) :
    renderMetrics (entries (counted name (n + 1))) =
      name ++ " " ++ (UInt64.ofNat (n + 1)).toNat.repr ++ "\n" := by
  rw [entries_counted, renderMetrics, List.map_singleton, List.mergeSort_singleton]
  show line _ ++ "\n" ++ "" = _
  rw [String.append_empty, line]

end TopdeskMcp.Metrics
