import Mathlib.Data.List.AList

/-!
# Memoized functions

A map that is filled as values are asked for. The requests come with their keys, and
different requests may have the same one: `Sound` says of a map that what it has under the
key of a request is the request's own value, and it stays so as long as requests under one
key have one value (`Compatible`).
-/

namespace TopdeskMcp.Memo

universe u v w

variable {α : Type u} {κ : Type v} {ν : Type w} [DecidableEq κ]

/-- The value under the key, which is inserted when there is none. -/
def getOrInsert (cache : AList fun _ : κ => ν) (key : κ) (value : ν) :
    ν × AList fun _ : κ => ν :=
  match cache.lookup key with
  | some cached => (cached, cache)
  | none => (value, cache.insert key value)

/-- The first value under a key stays. -/
theorem getOrInsert_spec (cache : AList fun _ : κ => ν) (key : κ) (value : ν) :
    (getOrInsert cache key value).1 = (cache.lookup key).getD value ∧
      ∀ other, (getOrInsert cache key value).2.lookup other =
        if other = key then some ((cache.lookup key).getD value) else cache.lookup other := by
  unfold getOrInsert
  cases hlookup : cache.lookup key with
  | some cached =>
      refine ⟨rfl, fun other => ?_⟩
      by_cases heq : other = key
      · rw [if_pos heq, heq]
        exact hlookup
      · rw [if_neg heq]
  | none =>
      refine ⟨rfl, fun other => ?_⟩
      by_cases heq : other = key
      · rw [if_pos heq, heq]
        exact AList.lookup_insert cache
      · rw [if_neg heq]
        exact AList.lookup_insert_ne heq

variable (Asked : α → Prop) (key : α → κ) (f : α → ν)

def Sound (cache : AList fun _ : κ => ν) : Prop :=
  ∀ a, Asked a → ∀ value, cache.lookup (key a) = some value → value = f a

def Compatible : Prop := ∀ a b, Asked a → Asked b → key a = key b → f a = f b

variable {Asked key f} {cache : AList fun _ : κ => ν} {a : α}

theorem sound_empty : Sound Asked key f (∅ : AList fun _ : κ => ν) := by
  intro a _ value h
  simp at h

/-- A request is answered with its own value, and the map stays sound. -/
theorem Sound.getOrInsert (h : Sound Asked key f cache) (hkey : Compatible Asked key f)
    (ha : Asked a) : (Memo.getOrInsert cache (key a) (f a)).1 = f a ∧
      Sound Asked key f (Memo.getOrInsert cache (key a) (f a)).2 := by
  obtain ⟨hvalue, hlookup⟩ := getOrInsert_spec cache (key a) (f a)
  have hown : (cache.lookup (key a)).getD (f a) = f a := by
    cases hcached : cache.lookup (key a) with
    | some cached => exact h a ha cached hcached
    | none => rfl
  refine ⟨hvalue.trans hown, fun b hb value hb' => ?_⟩
  rw [hlookup, hown] at hb'
  split at hb'
  · rename_i heq
    rw [← Option.some.inj hb']
    exact (hkey b a hb ha heq).symm
  · exact h b hb value hb'

end TopdeskMcp.Memo
