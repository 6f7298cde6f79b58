import Mathlib.Algebra.Ring.Nat
import Mathlib.Data.List.Nodup
import Mathlib.Data.List.Perm.Basic
import Mathlib.Tactic.Common

/-!
# Counters

`collections.Counter`: how often each key has been met, in the order in which they were first met.
`IsCount` says that a counter counts the items of a list, each of them a key: counting one more and
adding up two counters keep it, and then the entries of the counter are known (`IsCount.mem_iff`).
-/

namespace Counter

universe u

variable {κ : Type u}

abbrev Entries (κ : Type u) := List (κ × Nat)

def keys (counter : Entries κ) : List κ := counter.map (·.1)

/-- All entries, the largest counts first. -/
def mostCommon (counter : Entries κ) : Entries κ := counter.mergeSort fun a b => b.2 ≤ a.2

variable [DecidableEq κ]

def count (counter : Entries κ) (key : κ) : Nat := (counter.lookup key).getD 0

/-- `counter[key] += n` -/
def add : Entries κ → κ → Nat → Entries κ
  | [], key, n => [(key, n)]
  | (other, m) :: counter, key, n =>
      if other = key then (other, m + n) :: counter else (other, m) :: add counter key n

def update (counter more : Entries κ) : Entries κ :=
  more.foldl (fun counter entry => add counter entry.1 entry.2) counter

variable {counter more : Entries κ} {key other : κ} {n : Nat} {items items' : List κ}

theorem keys_add (counter : Entries κ) (key : κ) (n : Nat) :
    keys (add counter key n) =
      if key ∈ keys counter then keys counter else keys counter ++ [key] := by
  induction counter with
  | nil => rfl
  | cons entry counter ih =>
      obtain ⟨other, m⟩ := entry
      rw [add]
      by_cases heq : other = key
      · simp [keys, heq]
      · have hne : ¬ key = other := fun h => heq h.symm
        rw [if_neg heq]
        show other :: keys (add counter key n) = if key ∈ other :: keys counter then
          other :: keys counter else other :: keys counter ++ [key]
        rw [ih]
        by_cases hmem : key ∈ keys counter
        · rw [if_pos hmem, if_pos (List.mem_cons_of_mem _ hmem)]
        · rw [if_neg hmem, if_neg (by simp [hne, hmem])]
          rfl

theorem nodup_keys_add (h : (keys counter).Nodup) : (keys (add counter key n)).Nodup := by
  rw [keys_add]
  split
  · exact h
  · rename_i hmem
    exact List.nodup_append.mpr ⟨h, List.nodup_singleton key, fun a ha b hb heq => by
      rw [List.mem_singleton.mp hb] at heq
      exact hmem (heq ▸ ha)⟩

theorem count_add (counter : Entries κ) (key other : κ) (n : Nat) :
    count (add counter key n) other = count counter other + if other = key then n else 0 := by
  induction counter with
  | nil =>
      by_cases heq : other = key
      · simp [count, add, heq]
      · simp [count, add, heq, List.lookup_cons, beq_false_of_ne heq]
  | cons entry counter ih =>
      obtain ⟨first, m⟩ := entry
      unfold count at ih ⊢
      rw [add]
      by_cases hfirst : first = key
      · subst hfirst
        rw [if_pos rfl, List.lookup_cons, List.lookup_cons]
        by_cases heq : other = first
        · simp [heq]
        · simp [heq, beq_false_of_ne heq]
      · rw [if_neg hfirst, List.lookup_cons, List.lookup_cons]
        by_cases heq : other = first
        · have hne : ¬ other = key := fun h => hfirst (heq.symm.trans h)
          simp [heq, hfirst]
        · simpa [beq_false_of_ne heq] using ih

/-- The entry of a key. -/
theorem mem_iff_count (h : (keys counter).Nodup) (hpos : ∀ entry ∈ counter, 0 < entry.2) :
    (key, n) ∈ counter ↔ 0 < n ∧ count counter key = n := by
  induction counter with
  | nil =>
      simp only [List.not_mem_nil, false_iff, count, List.lookup_nil, Option.getD_none]
      omega
  | cons entry counter ih =>
      obtain ⟨first, m⟩ := entry
      obtain ⟨hfresh, hnodup⟩ := List.nodup_cons.mp h
      have hrest := ih hnodup fun entry hentry => hpos entry (List.mem_cons_of_mem _ hentry)
      have hm := hpos (first, m) List.mem_cons_self
      unfold count at hrest ⊢
      rw [List.mem_cons, List.lookup_cons, Prod.mk.injEq]
      by_cases heq : key = first
      · subst heq
        have hnot : (key, n) ∉ counter := fun hmem => hfresh (List.mem_map.mpr ⟨_, hmem, rfl⟩)
        simp only [hnot, or_false, true_and, beq_self_eq_true, Option.getD_some]
        constructor
        · rintro rfl
          exact ⟨hm, rfl⟩
        · rintro ⟨-, rfl⟩
          rfl
      · simp only [heq, false_and, false_or, beq_false_of_ne heq]
        exact hrest

/-- The counter has each item as a key, with the number of its occurrences. -/
structure IsCount (counter : Entries κ) (items : List κ) : Prop where
  nodup : (keys counter).Nodup
  pos : ∀ entry ∈ counter, 0 < entry.2
  count : ∀ key, count counter key = items.count key
  total : (counter.map (·.2)).sum = items.length

theorem total_add (counter : Entries κ) (key : κ) (n : Nat) :
    ((add counter key n).map (·.2)).sum = (counter.map (·.2)).sum + n := by
  induction counter with
  | nil => simp [add]
  | cons entry counter ih =>
      rw [add]
      split
      · simp only [List.map_cons, List.sum_cons]
        omega
      · simp only [List.map_cons, List.sum_cons, ih]
        omega

theorem pos_add (h : ∀ entry ∈ counter, 0 < entry.2) (hn : 0 < n) :
    ∀ entry ∈ add counter key n, 0 < entry.2 := by
  induction counter with
  | nil => simpa [add] using hn
  | cons entry counter ih =>
      obtain ⟨first, m⟩ := entry
      obtain ⟨hfirst, hrest⟩ := List.forall_mem_cons.mp h
      rw [add]
      split
      · exact List.forall_mem_cons.mpr ⟨Nat.add_pos_right m hn, hrest⟩
      · exact List.forall_mem_cons.mpr ⟨hfirst, ih hrest⟩

/-- One more item. -/
theorem IsCount.add (h : IsCount counter items) (key : κ) :
    IsCount (add counter key 1) (items ++ [key]) where
  nodup := nodup_keys_add h.nodup
  pos := pos_add h.pos Nat.one_pos
  count other := by
    rw [count_add, h.count, List.count_append, List.count_singleton]
    by_cases heq : other = key
    · simp [heq]
    · simp [heq, beq_false_of_ne fun h : key = other => heq h.symm]
  total := by rw [total_add, h.total, List.length_append, List.length_singleton]

theorem count_cons_of_nodup {entry : κ × Nat} (h : (keys (entry :: more)).Nodup) :
    Counter.count (entry :: more) key =
      (if key = entry.1 then entry.2 else 0) + Counter.count more key := by
  obtain ⟨first, m⟩ := entry
  obtain ⟨hfresh, -⟩ := List.nodup_cons.mp h
  unfold Counter.count
  rw [List.lookup_cons]
  by_cases heq : key = first
  · subst heq
    have hnone : more.lookup key = none := by
      rw [List.lookup_eq_none_iff]
      intro entry hentry
      exact bne_iff_ne.mpr fun h => hfresh (List.mem_map.mpr ⟨entry, hentry, h.symm⟩)
    simp [hnone]
  · simp [heq, beq_false_of_ne heq]

theorem update_spec (hcounter : (keys counter).Nodup) (hmore : (keys more).Nodup)
    (hpos : ∀ entry ∈ counter, 0 < entry.2) (hmpos : ∀ entry ∈ more, 0 < entry.2) :
    (keys (update counter more)).Nodup ∧ (∀ entry ∈ update counter more, 0 < entry.2) ∧
      (∀ key, Counter.count (update counter more) key =
        Counter.count counter key + Counter.count more key) ∧
      ((update counter more).map (·.2)).sum = (counter.map (·.2)).sum + (more.map (·.2)).sum := by
  induction more generalizing counter with
  | nil => exact ⟨hcounter, hpos, fun key => rfl, rfl⟩
  | cons entry more ih =>
      obtain ⟨hentry, hrest⟩ := List.forall_mem_cons.mp hmpos
      have hadd : (keys (Counter.add counter entry.1 entry.2)).Nodup := nodup_keys_add hcounter
      obtain ⟨hnodup, hall, hcount, htotal⟩ :=
        ih hadd (List.nodup_cons.mp hmore).2 (pos_add hpos hentry) hrest
      refine ⟨hnodup, hall, fun key => ?_, ?_⟩
      · show Counter.count (update (Counter.add counter entry.1 entry.2) more) key = _
        rw [hcount, count_add, count_cons_of_nodup hmore, Nat.add_assoc]
      · show ((update (Counter.add counter entry.1 entry.2) more).map (·.2)).sum = _
        rw [htotal, total_add, List.map_cons, List.sum_cons, Nat.add_assoc]

/-- The items of both. -/
theorem IsCount.update (h : IsCount counter items) (hmore : IsCount more items') :
    IsCount (update counter more) (items ++ items') := by
  obtain ⟨hnodup, hpos, hcount, htotal⟩ := update_spec h.nodup hmore.nodup h.pos hmore.pos
  refine ⟨hnodup, hpos, fun key => ?_, ?_⟩
  · rw [hcount, h.count, hmore.count, List.count_append]
  · rw [htotal, h.total, hmore.total, List.length_append]

/-- The entries are the items, each with its number. -/
theorem IsCount.mem_iff (h : IsCount counter items) :
    (key, n) ∈ counter ↔ key ∈ items ∧ n = items.count key := by
  rw [mem_iff_count h.nodup h.pos, h.count, ← List.count_pos_iff]
  omega

end Counter
