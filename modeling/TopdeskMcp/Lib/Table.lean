import Mathlib.Data.List.Nodup
import Mathlib.Data.List.Perm.Basic
import Mathlib.Tactic.Common

/-!
# Tables with a key

A table is the list of its rows, each a key and a value. A table without conflict resolution
is updated by a deletion and an insertion, so the row of a key comes last (`put`).

* `putAll_eq` is what a sequence of updates with different keys comes to, and
  `putAll_putAll` that it does nothing when it is repeated;
* `length_lt_length_iff` compares two lists of different keys by what one has and the
  other has not;
* `join_perm` is for a join with a list that has each key once.
-/

namespace Table

universe u v w

variable {κ : Type u} {ν : Type v}

def keys (rows : List (κ × ν)) : List κ := rows.map (·.1)

theorem mem_keys_of_mem {rows : List (κ × ν)} {row : κ × ν} (h : row ∈ rows) : row.1 ∈ keys rows :=
  List.mem_map_of_mem h

/-- A row that is looked up is there. -/
theorem mem_of_lookup [BEq κ] [LawfulBEq κ] {rows : List (κ × ν)} {key : κ} {value : ν}
    (h : rows.lookup key = some value) : (key, value) ∈ rows := by
  obtain ⟨before, after, rfl, -⟩ := List.lookup_eq_some_iff.mp h
  exact List.mem_append_right _ List.mem_cons_self

@[simp] theorem keys_nil : keys ([] : List (κ × ν)) = [] := rfl

@[simp] theorem keys_cons (row : κ × ν) (rows : List (κ × ν)) :
    keys (row :: rows) = row.1 :: keys rows := rfl

variable [DecidableEq κ]

def erase (rows : List (κ × ν)) (key : κ) : List (κ × ν) := rows.filter (·.1 ≠ key)

def put (rows : List (κ × ν)) (row : κ × ν) : List (κ × ν) := erase rows row.1 ++ [row]

def putAll (rows more : List (κ × ν)) : List (κ × ν) := more.foldl put rows

variable {rows more : List (κ × ν)} {row : κ × ν} {key : κ}

/-- A key that is not there has no rows. -/
theorem filter_of_notMem (h : key ∉ keys rows) : rows.filter (·.1 = key) = [] := by
  rw [List.filter_eq_nil_iff]
  intro row hrow heq
  exact h (of_decide_eq_true heq ▸ mem_keys_of_mem hrow)

/-- With different keys, the rows of a key are the one that has it. -/
theorem filter_of_mem (h : (keys rows).Nodup) (hrow : row ∈ rows) :
    rows.filter (·.1 = row.1) = [row] := by
  induction rows with
  | nil => simp at hrow
  | cons next rows ih =>
      obtain ⟨hfresh, hnodup⟩ := List.nodup_cons.mp h
      rcases List.mem_cons.mp hrow with rfl | hrow
      · rw [List.filter_cons_of_pos (by simp), filter_of_notMem hfresh]
      · have hne : next.1 ≠ row.1 := fun heq =>
          hfresh (List.mem_map.mpr ⟨row, hrow, heq.symm⟩)
        rw [List.filter_cons_of_neg (by simpa using hne), ih hnodup hrow]

@[simp] theorem mem_keys_erase {other : κ} :
    other ∈ keys (erase rows key) ↔ other ∈ keys rows ∧ other ≠ key := by
  simp only [keys, erase, List.mem_map, List.mem_filter, decide_eq_true_eq]
  constructor
  · rintro ⟨row, ⟨hrow, hne⟩, rfl⟩
    exact ⟨⟨row, hrow, rfl⟩, hne⟩
  · rintro ⟨⟨row, hrow, rfl⟩, hne⟩
    exact ⟨row, ⟨hrow, hne⟩, rfl⟩

@[simp] theorem mem_keys_put : key ∈ keys (put rows row) ↔ key ∈ keys rows ∨ key = row.1 := by
  have happend : key ∈ keys (put rows row) ↔ key ∈ keys (erase rows row.1) ∨ key = row.1 := by
    simp [keys, put]
  rw [happend, mem_keys_erase]
  by_cases heq : key = row.1
  · simp [heq]
  · simp [heq]

@[simp] theorem mem_keys_putAll :
    key ∈ keys (putAll rows more) ↔ key ∈ keys rows ∨ key ∈ keys more := by
  induction more generalizing rows with
  | nil => simp [putAll]
  | cons row more ih =>
      show key ∈ keys (putAll (put rows row) more) ↔ _
      rw [ih, mem_keys_put, or_assoc, keys_cons, List.mem_cons]

/-- Updates with different keys leave the other rows, in their order, and come after them. -/
theorem putAll_eq (h : (keys more).Nodup) :
    putAll rows more = rows.filter (fun r => r.1 ∉ keys more) ++ more := by
  induction more generalizing rows with
  | nil => simp [putAll]
  | cons row more ih =>
      obtain ⟨hfresh, hnodup⟩ := List.nodup_cons.mp h
      have hrow : [row].filter (fun r => r.1 ∉ keys more) = [row] :=
        List.filter_cons_of_pos (decide_eq_true hfresh)
      have hrest : (erase rows row.1).filter (fun r => r.1 ∉ keys more) =
          rows.filter (fun r => r.1 ∉ keys (row :: more)) := by
        rw [erase, List.filter_filter]
        apply List.filter_congr
        intro r _
        simp only [keys_cons, List.mem_cons, not_or, Bool.decide_and, ne_eq]
        exact Bool.and_comm ..
      show putAll (put rows row) more = _
      rw [ih hnodup, put, List.filter_append, hrow, hrest, List.append_assoc]
      rfl

/-- The same updates once more change nothing. -/
theorem putAll_putAll (h : (keys more).Nodup) :
    putAll (putAll rows more) more = putAll rows more := by
  have hgone : more.filter (fun r => r.1 ∉ keys more) = [] := by
    rw [List.filter_eq_nil_iff]
    intro r hr
    simpa using mem_keys_of_mem hr
  rw [putAll_eq h, putAll_eq h, List.filter_append, hgone, List.filter_filter, List.append_nil]
  simp

/-- An updated key has its new row and no other one. -/
theorem filter_putAll_of_mem (h : (keys more).Nodup) (hrow : row ∈ more) :
    (putAll rows more).filter (·.1 = row.1) = [row] := by
  have hold : row.1 ∉ keys (rows.filter fun r => r.1 ∉ keys more) := by
    intro hmem
    obtain ⟨r, hr, heq⟩ := List.mem_map.mp hmem
    obtain ⟨-, hnew⟩ := List.mem_filter.mp hr
    exact of_decide_eq_true hnew (heq ▸ mem_keys_of_mem hrow)
  rw [putAll_eq h, List.filter_append, filter_of_notMem hold, filter_of_mem h hrow, List.nil_append]

/-- Any other key has the rows that it had. -/
theorem filter_putAll_of_notMem (h : key ∉ keys more) :
    (putAll rows more).filter (·.1 = key) = rows.filter (·.1 = key) := by
  induction more generalizing rows with
  | nil => rfl
  | cons row more ih =>
      obtain ⟨hne, hmore⟩ := not_or.mp (fun hor => h (List.mem_cons.mpr hor))
      have hrow : key ∉ keys [row] := by simpa using hne
      show (putAll (put rows row) more).filter _ = _
      rw [ih hmore, put, List.filter_append, filter_of_notMem hrow, List.append_nil, erase,
        List.filter_filter]
      apply List.filter_congr
      intro r _
      by_cases heq : r.1 = key
      · simp [heq, hne]
      · simp [heq]

/-! ## Counting keys -/

theorem length_filter_mem_comm {xs ys : List κ} (hxs : xs.Nodup) (hys : ys.Nodup) :
    (xs.filter (· ∈ ys)).length = (ys.filter (· ∈ xs)).length := by
  apply List.Perm.length_eq
  rw [List.perm_ext_iff_of_nodup (hxs.filter _) (hys.filter _)]
  intro key
  simp [and_comm]

theorem length_eq_filter_mem_add (xs ys : List κ) :
    xs.length = (xs.filter (· ∈ ys)).length + (xs.filter (· ∉ ys)).length := by
  have hsplit := List.length_eq_length_filter_add (l := xs) (fun key => decide (key ∈ ys))
  simpa using hsplit

/-- Of two lists of different keys the one that has less of its own is the shorter one. -/
theorem length_lt_length_iff {xs ys : List κ} (hxs : xs.Nodup) (hys : ys.Nodup) :
    ys.length < xs.length ↔ (ys.filter (· ∉ xs)).length < (xs.filter (· ∉ ys)).length := by
  have hcommon := length_filter_mem_comm hxs hys
  have hx := length_eq_filter_mem_add xs ys
  have hy := length_eq_filter_mem_add ys xs
  omega

/-! ## Joins -/

theorem flatMap_ite_eq {ρ : Type w} (keys : List κ) (key : κ) (row : ρ) :
    (keys.flatMap fun other => if key = other then [row] else []) =
      List.replicate (keys.count key) row := by
  induction keys with
  | nil => rfl
  | cons other keys ih =>
      rw [List.flatMap_cons, ih, List.count_cons]
      by_cases heq : key = other
      · subst heq
        simp [List.replicate_succ]
      · have hne : other ≠ key := fun h => heq h.symm
        simp [heq, hne]

/-- The rows that go with keys, where the key of each row is there once. -/
theorem join_perm {ρ : Type w} {keys : List κ} {rows : List ρ} {key : ρ → κ}
    (h : ∀ row ∈ rows, keys.count (key row) = 1) :
    (keys.flatMap fun other => rows.filter fun row => key row = other).Perm rows := by
  induction rows with
  | nil => simp
  | cons row rows ih =>
      have hsplit : (keys.flatMap fun other => (row :: rows).filter fun row => key row = other) =
          keys.flatMap fun other => (if key row = other then [row] else []) ++
            rows.filter fun row => key row = other := by
        apply List.flatMap_congr
        intro other _
        rw [List.filter_cons]
        by_cases heq : key row = other <;> simp [heq]
      rw [hsplit]
      refine (List.flatMap_append_perm ..).symm.trans ?_
      rw [flatMap_ite_eq, h row (by simp)]
      exact (ih fun row' hrow' => h row' (by simp [hrow'])).cons row

end Table
