import Mathlib.Data.Option.Basic
import Mathlib.Logic.Function.Basic

/-!
# Labelled transition systems and their runs

A system is a partial step function on states: the label carries every choice
the environment makes (which party moves, at what time, with what outcome),
and `none` says that the label is not enabled. A run is a list of labels.

* `Lts.run` threads a list of labels through the step function;
* `Lts.Along P s es` says that every step of the run from `s` along `es` is
  taken at a state and label satisfying `P`, up to the first label that is not
  enabled;
* `Lts.Inductive` packages an invariant whose preservation may rely on a
  condition on each step, and its rules carry the invariant over whole runs;
* `Lts.run_foldl` is for a part of the state that the labels alone determine;
* `Lts.Simulates` does the same for a relation between two systems, and `Lts.Refines`
  for a function into a system whose steps are finer or fewer.
-/

namespace Trace

universe u v w

/-- A labelled transition system: a set of initial states and a partial,
deterministic step function. -/
structure Lts (σ : Type u) (ε : Type v) where
  init : σ → Prop
  step : σ → ε → Option σ

namespace Lts

variable {σ : Type u} {ε : Type v} (L : Lts σ ε)

/-- Follow a list of labels; `none` as soon as one is not enabled. -/
def run : σ → List ε → Option σ
  | s, [] => some s
  | s, e :: es => (L.step s e).bind fun s' => run s' es

/-- Every step of the run along the labels is taken at a state and label
satisfying `P`; a label that is not enabled ends the run. -/
def Along (P : σ → ε → Prop) : σ → List ε → Prop
  | _, [] => True
  | s, e :: es => ∀ s', L.step s e = some s' → P s e ∧ Along P s' es

variable {L} {P Q C : σ → ε → Prop} {s s' : σ} {e : ε} {es fs : List ε}

@[simp] theorem run_nil : L.run s [] = some s := rfl

theorem run_cons : L.run s (e :: es) = (L.step s e).bind fun s' => L.run s' es := rfl

@[simp] theorem along_nil : L.Along P s [] := trivial

theorem along_cons :
    L.Along P s (e :: es) ↔ ∀ s', L.step s e = some s' → P s e ∧ L.Along P s' es := Iff.rfl

/-- Inversion of a nonempty run. -/
theorem run_cons_eq_some : L.run s (e :: es) = some s' ↔
    ∃ t, L.step s e = some t ∧ L.run t es = some s' := by
  rw [run_cons, Option.bind_eq_some_iff]

/-- Runs compose. -/
theorem run_append : L.run s (es ++ fs) = (L.run s es).bind fun t => L.run t fs := by
  induction es generalizing s with
  | nil => rfl
  | cons e es ih =>
      rw [List.cons_append, run_cons, run_cons]
      cases L.step s e with
      | none => rfl
      | some t => exact ih

theorem run_append_eq_some {t : σ} : L.run s (es ++ fs) = some t ↔
    ∃ m, L.run s es = some m ∧ L.run m fs = some t := by
  rw [run_append, Option.bind_eq_some_iff]

/-- Inversion of a run from its end. -/
theorem run_concat_eq_some : L.run s (es ++ [e]) = some s' ↔
    ∃ t, L.run s es = some t ∧ L.step t e = some s' := by
  rw [run_append_eq_some]
  simp [run_cons]

/-- `Along` of a composed run: the first half, then the second half from the
state the first half ends in. -/
theorem along_append : L.Along P s (es ++ fs) ↔
    L.Along P s es ∧ ∀ t, L.run s es = some t → L.Along P t fs := by
  induction es generalizing s with
  | nil => simp
  | cons e es ih =>
      rw [List.cons_append, along_cons, along_cons]
      constructor
      · intro h
        constructor
        · intro s' hs'
          exact ⟨(h s' hs').1, (ih.mp (h s' hs').2).1⟩
        · intro t ht
          obtain ⟨s', hs', hrun⟩ := run_cons_eq_some.mp ht
          exact (ih.mp (h s' hs').2).2 t hrun
      · rintro ⟨hhead, htail⟩ s' hs'
        refine ⟨(hhead s' hs').1, ih.mpr ⟨(hhead s' hs').2, ?_⟩⟩
        intro t ht
        exact htail t (run_cons_eq_some.mpr ⟨s', hs', ht⟩)

/-- Walk `Along` one known step at a time. -/
theorem Along.tail (h : L.Along P s (e :: es)) {t : σ} (ht : L.step s e = some t) :
    L.Along P t es := (h t ht).2

/-- The first step of a run, when it is enabled. -/
theorem Along.head (h : L.Along P s (e :: es)) {t : σ} (ht : L.step s e = some t) : P s e :=
  (h t ht).1

theorem Along.and (hP : L.Along P s es) (hQ : L.Along Q s es) :
    L.Along (fun s e => P s e ∧ Q s e) s es := by
  induction es generalizing s with
  | nil => trivial
  | cons e es ih =>
      intro s' hs'
      exact ⟨⟨hP.head hs', hQ.head hs'⟩, ih (hP.tail hs') (hQ.tail hs')⟩

/-- What every label satisfies holds along the run. -/
theorem along_of_forall_mem (h : ∀ e ∈ es, ∀ s, P s e) : L.Along P s es := by
  induction es generalizing s with
  | nil => trivial
  | cons e es ih =>
      intro s' _
      exact ⟨h e (by simp) s, ih fun f hf => h f (by simp [hf])⟩

/-- Build `Along` one known step at a time. -/
theorem Along.cons (hP : P s e) {t : σ} (ht : L.step s e = some t) (h : L.Along P t es) :
    L.Along P s (e :: es) := by
  intro s' hs'
  rw [ht] at hs'
  obtain rfl := Option.some.inj hs'
  exact ⟨hP, h⟩

/-- Where a run first leaves a condition. -/
theorem exists_first_of_not_along (hrun : L.run s es = some s') (h : ¬ L.Along C s es) :
    ∃ before e after t, es = before ++ e :: after ∧ L.run s before = some t ∧
      L.Along C s before ∧ ¬ C t e := by
  induction es generalizing s with
  | nil => exact absurd along_nil h
  | cons e es ih =>
      obtain ⟨t, ht, hrest⟩ := run_cons_eq_some.mp hrun
      -- the run leaves the condition here, or keeps it here and leaves it later
      by_cases hC : C s e
      · obtain ⟨before, f, after, m, rfl, hm, halong, hnot⟩ :=
          ih hrest fun hes => h (.cons hC ht hes)
        exact ⟨e :: before, f, after, m, rfl, run_cons_eq_some.mpr ⟨t, ht, hm⟩,
          .cons hC ht halong, hnot⟩
      · exact ⟨[], e, es, s, rfl, rfl, along_nil, hC⟩

/-! ## Invariants -/

variable (L) in
/-- `I` is preserved by every step that satisfies the condition `C`. -/
def Inductive (C : σ → ε → Prop) (I : σ → Prop) : Prop :=
  ∀ s e s', I s → C s e → L.step s e = some s' → I s'

/-- The run rule: an inductive invariant holds at the end of a run whose steps
all satisfy the condition. -/
theorem Inductive.run {I : σ → Prop} (hI : L.Inductive C I) (h : I s) (hC : L.Along C s es)
    (hrun : L.run s es = some s') : I s' := by
  induction es generalizing s with
  | nil =>
      obtain rfl : s = s' := by simpa using hrun
      exact h
  | cons e es ih =>
      obtain ⟨t, ht, hrest⟩ := run_cons_eq_some.mp hrun
      exact ih (hI s e t h (hC.head ht) ht) (hC.tail ht) hrest

/-- The trace rule: what an inductive invariant implies at each step holds
along the whole run. -/
theorem Inductive.along {I : σ → Prop} (hI : L.Inductive C I) (h : I s) (hC : L.Along C s es)
    (hP : ∀ s e s', I s → C s e → L.step s e = some s' → P s e) : L.Along P s es := by
  induction es generalizing s with
  | nil => trivial
  | cons e es ih =>
      intro s' hs'
      exact ⟨hP s e s' h (hC.head hs') hs', ih (hI s e s' h (hC.head hs') hs') (hC.tail hs')⟩

/-- An invariant that needs no condition holds in every reachable state. -/
theorem Inductive.reach {I : σ → Prop} (hI : L.Inductive (fun _ _ => True) I) (h : I s)
    (hrun : L.run s es = some s') : I s' := by
  refine hI.run h ?_ hrun
  clear hrun
  induction es generalizing s with
  | nil => trivial
  | cons e es ih =>
      intro s' hs'
      exact ⟨trivial, ih (hI s e s' h trivial hs')⟩

/-- What each step changes by its label alone, a run changes by its labels. -/
theorem run_foldl {α : Type w} {f : σ → α} {g : α → ε → α}
    (h : ∀ s e s', L.step s e = some s' → f s' = g (f s) e) (hrun : L.run s es = some s') :
    f s' = es.foldl g (f s) := by
  induction es generalizing s with
  | nil =>
      obtain rfl : s = s' := by simpa using hrun
      rfl
  | cons e es ih =>
      obtain ⟨t, ht, hrest⟩ := run_cons_eq_some.mp hrun
      rw [List.foldl_cons, ← h s e t ht]
      exact ih hrest

/-! ## Simulations -/

/-- Every step of `L` that satisfies the condition is matched by `M` under the same
label, from related states to related states. -/
def Simulates {τ : Type w} (L : Lts σ ε) (M : Lts τ ε) (C : σ → ε → Prop)
    (R : σ → τ → Prop) : Prop :=
  ∀ s t e s', R s t → C s e → L.step s e = some s' → ∃ t', M.step t e = some t' ∧ R s' t'

/-- The simulation rule: a run whose steps all satisfy the condition is matched. -/
theorem Simulates.run {τ : Type w} {M : Lts τ ε} {R : σ → τ → Prop} {t : τ}
    (hR : L.Simulates M C R) (h : R s t) (hC : L.Along C s es) (hrun : L.run s es = some s') :
    ∃ t', M.run t es = some t' ∧ R s' t' := by
  induction es generalizing s t with
  | nil =>
      obtain rfl : s = s' := by simpa using hrun
      exact ⟨t, rfl, h⟩
  | cons e es ih =>
      obtain ⟨m, hm, hrest⟩ := run_cons_eq_some.mp hrun
      obtain ⟨n, hn, hmn⟩ := hR s t e m h (hC.head hm) hm
      obtain ⟨t', ht', hst⟩ := ih hmn (hC.tail hm) hrest
      exact ⟨t', run_cons_eq_some.mpr ⟨n, hn, ht'⟩, hst⟩

/-- Between the images of a step of `L` there is a run of `M`. -/
def Refines {τ : Type w} {ζ : Type} (L : Lts σ ε) (M : Lts τ ζ) (abs : σ → τ) : Prop :=
  ∀ s e s', L.step s e = some s' → ∃ fs, M.run (abs s) fs = some (abs s')

/-- The refinement rule: so there is between the images of a run. -/
theorem Refines.run {τ : Type w} {ζ : Type} {M : Lts τ ζ} {abs : σ → τ} (h : L.Refines M abs)
    (hrun : L.run s es = some s') : ∃ fs, M.run (abs s) fs = some (abs s') := by
  induction es generalizing s with
  | nil =>
      obtain rfl : s = s' := by simpa using hrun
      exact ⟨[], rfl⟩
  | cons e es ih =>
      obtain ⟨t, ht, hrest⟩ := run_cons_eq_some.mp hrun
      obtain ⟨fs, hfs⟩ := h s e t ht
      obtain ⟨gs, hgs⟩ := ih hrest
      exact ⟨fs ++ gs, run_append_eq_some.mpr ⟨abs t, hfs, hgs⟩⟩

end Lts

end Trace
