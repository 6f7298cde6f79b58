import Mathlib

/-!
# Bisection

`right` is `bisect.bisect_right`: where to insert a value into a sorted list, after those that are
equal to it (`isRight_right`).
-/

namespace Bisect

universe u

variable {α : Type u}

/-- The loop, between two places. -/
def rightLoop [LT α] [DecidableLT α] (items : List α) (value : α) (lo hi : Nat) : Nat :=
  if lo < hi then
    let mid := (lo + hi) / 2
    match items[mid]? with
    | some item =>
        if value < item then rightLoop items value lo mid else rightLoop items value (mid + 1) hi
    | none => lo
  else lo
termination_by hi - lo

def right [LT α] [DecidableLT α] (items : List α) (value : α) : Nat :=
  rightLoop items value 0 items.length

variable [LinearOrder α] {items : List α} {value : α} {lo hi : Nat}

theorem le_of_pairwise (hsorted : items.Pairwise (· ≤ ·)) {i j : Nat} {a b : α}
    (ha : items[i]? = some a) (hb : items[j]? = some b) (hle : i ≤ j) : a ≤ b := by
  obtain ⟨hi, rfl⟩ := List.getElem?_eq_some_iff.mp ha
  obtain ⟨hj, rfl⟩ := List.getElem?_eq_some_iff.mp hb
  rcases Nat.lt_or_eq_of_le hle with hlt | rfl
  · exact List.pairwise_iff_getElem.mp hsorted i j hi hj hlt
  · exact le_refl _

/-- A place before which everything is at most the value, and after which all is above it. -/
structure IsRight (items : List α) (value : α) (place : Nat) : Prop where
  le_length : place ≤ items.length
  low : ∀ i item, i < place → items[i]? = some item → item ≤ value
  high : ∀ i item, place ≤ i → items[i]? = some item → value < item

/-- The loop finds it, if it is between the two places. -/
theorem isRight_rightLoop (hsorted : items.Pairwise (· ≤ ·)) (hle : lo ≤ hi)
    (hlength : hi ≤ items.length)
    (hlow : ∀ i item, i < lo → items[i]? = some item → item ≤ value)
    (hhigh : ∀ i item, hi ≤ i → items[i]? = some item → value < item) :
    IsRight items value (rightLoop items value lo hi) := by
  fun_induction rightLoop items value lo hi with
  | case1 lo hi hlt mid item hitem habove ih =>
      refine ih (by omega) (by omega) hlow fun i other hmid hother => ?_
      exact lt_of_lt_of_le habove (le_of_pairwise hsorted hitem hother hmid)
  | case2 lo hi hlt mid item hitem hbelow ih =>
      refine ih (by omega) hlength (fun i other hmid hother => ?_) hhigh
      exact le_trans (le_of_pairwise hsorted hother hitem (by omega)) (not_lt.mp hbelow)
  | case3 lo hi hlt mid hnone =>
      rw [List.getElem?_eq_none_iff] at hnone
      omega
  | case4 lo hi hge =>
      obtain rfl : lo = hi := by omega
      exact ⟨hlength, hlow, hhigh⟩

theorem isRight_right (hsorted : items.Pairwise (· ≤ ·)) (value : α) :
    IsRight items value (right items value) := by
  refine isRight_rightLoop hsorted (Nat.zero_le _) (Nat.le_refl _) (by simp) ?_
  intro i item hle hitem
  obtain ⟨hlt, -⟩ := List.getElem?_eq_some_iff.mp hitem
  omega

end Bisect
