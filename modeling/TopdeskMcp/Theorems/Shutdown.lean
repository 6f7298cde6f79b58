import TopdeskMcp.Core.ShutdownHandler

/-!
# Cleanups at the end of the server

Callbacks are promised to run, in reverse order of registration, when the server ends.
Only `shutdown` runs them, and only a signal leads there: when the transport's own loop
returns, `main` does, and the process is gone. `NothingLeft` is the condition under
which every end is an orderly one, and `Accounted` the invariant that says where each
registered callback is.
-/

namespace TopdeskMcp.Theorems.Shutdown

open TopdeskMcp Trace Harness

variable {γ : Type} {p p' : Harness γ} {es : List (Event γ)}

/-- Every registered callback has run exactly once, in reverse order of registration. -/
def CleanedUp (p : Harness γ) : Prop := p.ran = p.registered.reverse

/-- The transport ends by itself only when no callback is left to run, and nothing is
registered once a shutdown has begun. -/
def NothingLeft (p : Harness γ) : Event γ → Prop
  | .transportEnds _ _ => p.cleanupFns = [] ∧ p.pending.getD [] = []
  | .onShutdown _ => p.pending = none
  | .signal _ | .cleanup | .exit => True

/-! ## Where the callbacks are -/

/-- Before a shutdown every callback is in the list. Afterwards the early ones have run or
are pending, in reverse order, and the list holds the late ones. -/
structure Accounted (p : Harness γ) : Prop where
  before : p.pending = none → p.ran = [] ∧ p.registered = p.cleanupFns
  during : ∀ rest, p.pending = some rest →
    ∃ early, p.registered = early ++ p.cleanupFns ∧ p.ran ++ rest = early.reverse

theorem accounted_initial : Accounted (.initial : Harness γ) where
  before _ := ⟨rfl, rfl⟩
  during rest h := by simp [Harness.initial] at h

theorem accounted_inductive : (harness γ).Inductive (fun _ _ => True) Accounted := by
  intro p e p' hI _ h
  cases e with
  | onShutdown f =>
      obtain ⟨-, rfl⟩ := step_onShutdown h
      refine ⟨fun hnone => ?_, fun rest hrest => ?_⟩
      · obtain ⟨hran, hregistered⟩ := hI.before hnone
        exact ⟨hran, by simp [hregistered]⟩
      · obtain ⟨early, hregistered, hran⟩ := hI.during rest hrest
        exact ⟨early, by simp [hregistered], hran⟩
  | signal signal =>
      obtain ⟨-, hnone, rfl⟩ := step_signal h
      obtain ⟨hran, hregistered⟩ := hI.before hnone
      refine ⟨fun hpending => by simp at hpending, fun rest hrest => ?_⟩
      obtain rfl := Option.some.inj hrest
      exact ⟨p.cleanupFns, by simp [hregistered], by simp [hran]⟩
  | cleanup =>
      obtain ⟨-, f, rest, hpending, rfl⟩ := step_cleanup h
      refine ⟨fun hnone => by simp at hnone, fun rest' hrest' => ?_⟩
      obtain rfl := Option.some.inj hrest'
      obtain ⟨early, hregistered, hran⟩ := hI.during (f :: rest) hpending
      exact ⟨early, hregistered, by simpa using hran⟩
  | exit =>
      obtain ⟨-, -, rfl⟩ := step_exit h
      exact ⟨hI.before, hI.during⟩
  | transportEnds transport ok =>
      obtain ⟨-, rfl⟩ := step_transportEnds h
      exact ⟨hI.before, hI.during⟩

/-- Everything has run exactly when nothing is left, neither in the list nor pending. -/
theorem Accounted.cleanedUp_iff (h : Accounted p) :
    CleanedUp p ↔ p.cleanupFns = [] ∧ p.pending.getD [] = [] := by
  unfold CleanedUp
  cases hpending : p.pending with
  | none =>
      obtain ⟨hran, hregistered⟩ := h.before hpending
      rw [hran, hregistered, eq_comm, List.reverse_eq_nil_iff, Option.getD_none]
      simp
  | some rest =>
      obtain ⟨early, hregistered, hran⟩ := h.during rest hpending
      rw [hregistered, List.reverse_append, ← hran, Option.getD_some]
      constructor
      · intro heq
        have hlength := congrArg List.length heq
        simp only [List.length_append, List.length_reverse] at hlength
        exact ⟨List.length_eq_zero_iff.mp (by omega), List.length_eq_zero_iff.mp (by omega)⟩
      · rintro ⟨hlist, rfl⟩
        simp [hlist]

/-! ## Ends of a run -/

/-- What a run within the condition keeps. -/
structure Orderly (p : Harness γ) : Prop where
  accounted : Accounted p
  noLate : p.pending ≠ none → p.cleanupFns = []
  cleaned : p.exitCode ≠ none → CleanedUp p

theorem orderly_inductive : (harness γ).Inductive NothingLeft Orderly := by
  intro p e p' hI hC h
  have haccounted := accounted_inductive p e p' hI.accounted trivial h
  cases e with
  | onShutdown f =>
      obtain ⟨hrunning, rfl⟩ := step_onShutdown h
      exact ⟨haccounted, fun hpending => absurd hC hpending, fun hexit => absurd hrunning hexit⟩
  | signal signal =>
      obtain ⟨hrunning, -, rfl⟩ := step_signal h
      exact ⟨haccounted, fun _ => rfl, fun hexit => absurd hrunning hexit⟩
  | cleanup =>
      obtain ⟨hrunning, f, rest, hpending, rfl⟩ := step_cleanup h
      exact ⟨haccounted, fun _ => hI.noLate (by simp [hpending]),
        fun hexit => absurd hrunning hexit⟩
  | exit =>
      obtain ⟨-, hpending, rfl⟩ := step_exit h
      have hlist := hI.noLate (by simp [hpending])
      exact ⟨haccounted, hI.noLate, fun _ => haccounted.cleanedUp_iff.mpr ⟨hlist, by simp [hpending]⟩⟩
  | transportEnds transport ok =>
      obtain ⟨-, rfl⟩ := step_transportEnds h
      exact ⟨haccounted, hI.noLate, fun _ => haccounted.cleanedUp_iff.mpr hC⟩

/-- A callback that is registered during a shutdown stays in the list. -/
def Stranded (p : Harness γ) : Prop := p.pending ≠ none ∧ p.cleanupFns ≠ []

theorem stranded_inductive : (harness γ).Inductive (fun _ _ => True) Stranded := by
  rintro p e p' ⟨hpending, hlist⟩ - h
  cases e with
  | onShutdown f =>
      obtain ⟨-, rfl⟩ := step_onShutdown h
      exact ⟨hpending, by simp⟩
  | signal signal =>
      obtain ⟨-, hnone, -⟩ := step_signal h
      exact absurd hnone hpending
  | cleanup =>
      obtain ⟨-, f, rest, -, rfl⟩ := step_cleanup h
      exact ⟨by simp, hlist⟩
  | exit =>
      obtain ⟨-, -, rfl⟩ := step_exit h
      exact ⟨hpending, hlist⟩
  | transportEnds transport ok =>
      obtain ⟨-, rfl⟩ := step_transportEnds h
      exact ⟨hpending, hlist⟩

/-- Nothing happens after the exit. -/
theorem run_of_exited (hexit : p.exitCode ≠ none) (hrun : (harness γ).run p es = some p') :
    p' = p := by
  cases es with
  | nil => simpa using hrun.symm
  | cons e es =>
      obtain ⟨t, ht, -⟩ := Lts.run_cons_eq_some.mp hrun
      exact absurd (step_eq_some.mp ht).1 hexit

/-- After a step outside the condition no end is an orderly one. -/
theorem not_cleanedUp_of_not_nothingLeft {e : Event γ} {t : Harness γ} (hI : Accounted p)
    (hstep : (harness γ).step p e = some t) (hnot : ¬ NothingLeft p e)
    (hrun : (harness γ).run t es = some p') : ¬ CleanedUp p' := by
  have ht : Accounted t := accounted_inductive p e t hI trivial hstep
  have hp' : Accounted p' := accounted_inductive.reach ht hrun
  cases e with
  | onShutdown f =>
      have hstranded : Stranded t := by
        obtain ⟨-, rfl⟩ := step_onShutdown hstep
        exact ⟨hnot, by simp⟩
      have hstranded := stranded_inductive.reach hstranded hrun
      exact fun hclean => hstranded.2 (hp'.cleanedUp_iff.mp hclean).1
  | transportEnds transport ok =>
      obtain ⟨-, rfl⟩ := step_transportEnds hstep
      obtain rfl := run_of_exited (by simp) hrun
      exact fun hclean => hnot (hp'.cleanedUp_iff.mp hclean)
  | signal => exact absurd trivial hnot
  | cleanup => exact absurd trivial hnot
  | exit => exact absurd trivial hnot

/-- **Cleanups.** When a server process has exited, every registered callback has run
exactly once and in reverse order of registration if and only if the transport did not end
by itself with a callback left to run, and none was registered during the shutdown. -/
theorem cleaned_up_iff (events : List (Event γ)) (p : Harness γ)
    (hrun : (harness γ).run .initial events = some p) (hexit : p.exitCode ≠ none) :
    CleanedUp p ↔ (harness γ).Along NothingLeft .initial events := by
  constructor
  · intro hclean
    by_contra hnot
    obtain ⟨before, e, after, t, rfl, ht, -, hleft⟩ := Lts.exists_first_of_not_along hrun hnot
    obtain ⟨t', ht', hrest⟩ := Lts.run_append_eq_some.mp hrun
    obtain rfl : t = t' := Option.some.inj (ht.symm.trans ht')
    obtain ⟨m, hm, hafter⟩ := Lts.run_cons_eq_some.mp hrest
    have hI : Accounted t := accounted_inductive.reach accounted_initial ht
    exact not_cleanedUp_of_not_nothingLeft hI hm hleft hafter hclean
  · intro halong
    have hstart : Orderly (.initial : Harness γ) :=
      ⟨accounted_initial, fun _ => rfl, fun h => absurd rfl h⟩
    exact (orderly_inductive.run hstart halong hrun).cleaned hexit

/-! ## The two callbacks of the harness server -/

/-- The client of a stdio server disconnects: neither callback has run. -/
theorem cleaned_up_fails : ∃ p, (harness Cleanup).run .initial
      (startup true ++ [.transportEnds .stdio true]) = some p ∧
    p.exitCode = some 0 ∧ p.registered = [.shutdownTracing, .abortHealthChecks] ∧ p.ran = [] ∧
    ¬ CleanedUp p := by
  refine ⟨_, rfl, rfl, rfl, rfl, fun h => ?_⟩
  exact absurd (congrArg List.length h) (by decide)

/-- On SIGTERM both run, the later one first. -/
theorem cleaned_up_iff_sigterm : ∃ p, (harness Cleanup).run .initial
      (startup true ++ [.signal .sigterm, .cleanup, .cleanup, .exit]) = some p ∧
    p.ran = [.abortHealthChecks, .shutdownTracing] ∧
    (harness Cleanup).Along NothingLeft .initial
      (startup true ++ [.signal .sigterm, .cleanup, .cleanup, .exit]) := by
  obtain ⟨p, hrun, hexit, hran, hregistered⟩ : ∃ p, (harness Cleanup).run .initial
      (startup true ++ [.signal .sigterm, .cleanup, .cleanup, .exit]) = some p ∧
      p.exitCode ≠ none ∧ p.ran = [.abortHealthChecks, .shutdownTracing] ∧
      p.registered = [.shutdownTracing, .abortHealthChecks] :=
    ⟨_, rfl, by simp, rfl, rfl⟩
  exact ⟨p, hrun, hran, (cleaned_up_iff _ p hrun hexit).mp (by rw [CleanedUp, hran, hregistered]; rfl)⟩

end TopdeskMcp.Theorems.Shutdown
