import Mathlib.Data.Finset.Card
import Mathlib.Data.Finset.Insert

/-!
# What was written last

A log of writes and resets, the newest entry first. `latest` is the value of the last write to a
key since the last reset, and `written` are the keys that have one.
-/

namespace Recency

universe u v

inductive Entry (κ : Type u) (ν : Type v) where
  | write (key : κ) (value : ν)
  | reset

variable {κ : Type u} {ν : Type v}

/-- The writes since the last reset. -/
def recent : List (Entry κ ν) → List (κ × ν)
  | [] => []
  | .reset :: _ => []
  | .write key value :: log => (key, value) :: recent log

variable [DecidableEq κ]

def latest (log : List (Entry κ ν)) (key : κ) : Option ν :=
  ((recent log).find? (·.1 = key)).map (·.2)

def written (log : List (Entry κ ν)) : Finset κ := ((recent log).map (·.1)).toFinset

variable {log : List (Entry κ ν)} {key other : κ} {value : ν}

@[simp] theorem latest_nil : latest ([] : List (Entry κ ν)) key = none := rfl

@[simp] theorem latest_reset : latest (.reset :: log) key = none := rfl

@[simp] theorem latest_write_self : latest (.write key value :: log) key = some value := by
  simp [latest, recent]

theorem latest_write_of_ne (h : other ≠ key) :
    latest (.write key value :: log) other = latest log other := by
  simp [latest, recent, h.symm]

@[simp] theorem written_nil : written ([] : List (Entry κ ν)) = ∅ := rfl

@[simp] theorem written_reset : written (.reset :: log) = ∅ := rfl

@[simp] theorem written_write : written (.write key value :: log) = insert key (written log) := by
  simp [written, recent]

theorem mem_written_of_latest (h : latest log key = some value) : key ∈ written log := by
  obtain ⟨entry, hentry, -⟩ := Option.map_eq_some_iff.mp h
  have hkey : entry.1 = key := by simpa using List.find?_some hentry
  rw [← hkey]
  exact List.mem_toFinset.mpr (List.mem_map_of_mem (List.mem_of_find?_eq_some hentry))

end Recency
