import Mathlib.Data.List.AList

/-!
# Hash maps from strings to strings

The map itself is an association list without duplicate keys. A hash map is
walked in no particular order, and the next run walks it in another one:
`HashOrder` is the order of one run, and what does not depend on it is stated up
to permutation.
-/

/-- A map from strings to strings. -/
abbrev StringMap := AList fun _ : String => String

/-- The entries, in the order of the association list. -/
def StringMap.pairs (m : StringMap) : List (String × String) := m.entries.map fun e => (e.1, e.2)

/-- The order in which a run walks its hash maps. -/
structure HashOrder where
  iter : StringMap → List (String × String)
  perm : ∀ m, (iter m).Perm m.pairs

namespace StringMap

theorem pairs_insert {m : StringMap} {key : String} (value : String) (h : key ∉ m) :
    pairs (m.insert key value) = (key, value) :: m.pairs := by
  rw [pairs, AList.entries_insert_of_notMem h]
  rfl

/-- Inserting entries under new and distinct keys, in any order, adds just them. -/
theorem pairs_foldl_insert (rename : String → String) {entries : List (String × String)}
    {m : StringMap} (hnodup : (entries.map fun e => rename e.1).Nodup)
    (hnew : ∀ e ∈ entries, rename e.1 ∉ m) :
    (pairs (entries.foldl (fun m e => m.insert (rename e.1) e.2) m)).Perm
      (entries.map (fun e => (rename e.1, e.2)) ++ m.pairs) := by
  induction entries generalizing m with
  | nil => exact .refl _
  | cons e entries ih =>
      obtain ⟨hhead, hnodup⟩ := List.nodup_cons.mp hnodup
      have hrest : ∀ e' ∈ entries, rename e'.1 ∉ m.insert (rename e.1) e.2 := by
        intro e' he'
        rw [AList.mem_insert]
        rintro (heq | hmem)
        · exact hhead (List.mem_map.mpr ⟨e', he', heq⟩)
        · exact hnew e' (by simp [he']) hmem
      refine (ih hnodup hrest).trans ?_
      rw [pairs_insert e.2 (hnew e (by simp))]
      exact List.perm_middle

/-- Inserting under other keys does not touch a key. -/
theorem lookup_foldl_insert (rename : String → String) {entries : List (String × String)}
    {m : StringMap} {key : String} (h : ∀ e ∈ entries, rename e.1 ≠ key) :
    (entries.foldl (fun m e => m.insert (rename e.1) e.2) m).lookup key = m.lookup key := by
  induction entries generalizing m with
  | nil => rfl
  | cons e entries ih =>
      rw [List.foldl_cons, ih fun e' he' => h e' (by simp [he'])]
      exact AList.lookup_insert_ne (h e (by simp)).symm

theorem mem_foldl_insert {entries : List (String × String)} {m : StringMap} {key : String} :
    key ∈ entries.foldl (fun m e => m.insert e.1 e.2) m ↔
      key ∈ m ∨ ∃ value, (key, value) ∈ entries := by
  induction entries generalizing m with
  | nil => simp
  | cons e entries ih =>
      rw [List.foldl_cons, ih, AList.mem_insert]
      constructor
      · rintro ((rfl | hmem) | ⟨value, hvalue⟩)
        · exact .inr ⟨e.2, by simp⟩
        · exact .inl hmem
        · exact .inr ⟨value, by simp [hvalue]⟩
      · rintro (hmem | ⟨value, hvalue⟩)
        · exact .inl (.inr hmem)
        · rcases List.mem_cons.mp hvalue with rfl | hvalue
          · exact .inl (.inl rfl)
          · exact .inr ⟨value, hvalue⟩

/-- What is found after inserting entries is one of them or was there before. -/
theorem mem_of_lookup_foldl_insert {entries : List (String × String)} {m : StringMap}
    {key value : String}
    (h : (entries.foldl (fun m e => m.insert e.1 e.2) m).lookup key = some value) :
    (key, value) ∈ entries ∨ m.lookup key = some value := by
  induction entries generalizing m with
  | nil => exact .inr h
  | cons e entries ih =>
      rcases ih h with hmem | hlookup
      · exact .inl (List.mem_cons_of_mem _ hmem)
      · by_cases heq : key = e.1
        · subst heq
          rw [AList.lookup_insert] at hlookup
          exact .inl (List.mem_cons.mpr (.inl (Prod.ext rfl (Option.some.inj hlookup).symm)))
        · rw [AList.lookup_insert_ne heq] at hlookup
          exact .inr hlookup

/-- Under distinct keys every entry is found. -/
theorem lookup_foldl_insert_of_mem {entries : List (String × String)} {m : StringMap}
    {key value : String} (hnodup : (entries.map (·.1)).Nodup) (h : (key, value) ∈ entries) :
    (entries.foldl (fun m e => m.insert e.1 e.2) m).lookup key = some value := by
  induction entries generalizing m with
  | nil => simp at h
  | cons e entries ih =>
      obtain ⟨hhead, hnodup⟩ := List.nodup_cons.mp hnodup
      rcases List.mem_cons.mp h with rfl | h
      · have hother : ∀ e' ∈ entries, id e'.1 ≠ key := fun e' he' heq =>
          hhead (List.mem_map.mpr ⟨e', he', heq⟩)
        exact (lookup_foldl_insert id hother).trans (AList.lookup_insert m)
      · exact ih hnodup h

/-- A map of entries in some order holds what their list does. -/
theorem lookup_foldl_insert_perm {entries entries' : List (String × String)}
    (hperm : entries.Perm entries') (hnodup : (entries'.map (·.1)).Nodup) (key : String) :
    (entries.foldl (fun m e => m.insert e.1 e.2) (∅ : StringMap)).lookup key =
      entries'.lookup key := by
  have hnodup' : (entries.map (·.1)).Nodup := (hperm.map _).nodup_iff.mpr hnodup
  cases hlookup : entries'.lookup key with
  | some value =>
      obtain ⟨before, after, rfl, -⟩ := List.lookup_eq_some_iff.mp hlookup
      exact lookup_foldl_insert_of_mem hnodup' (hperm.mem_iff.mpr (by simp))
  | none =>
      cases hfound : (entries.foldl (fun m e => m.insert e.1 e.2) (∅ : StringMap)).lookup key with
      | none => rfl
      | some value =>
          have hmem := (mem_of_lookup_foldl_insert hfound).resolve_right (by simp)
          have hne := List.lookup_eq_none_iff.mp hlookup _ (hperm.mem_iff.mp hmem)
          simp at hne

end StringMap
