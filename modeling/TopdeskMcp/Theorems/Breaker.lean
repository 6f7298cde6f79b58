import TopdeskMcp.Core.CircuitBreaker
import Mathlib.Data.List.Induction

/-!
# The circuit breaker under concurrent calls

The breaker's mutex is free while a wrapped call runs, so completions of calls
admitted earlier interleave with everything else. Two promises of the state
machine are studied over every interleaving of `calls`:

* **one trial** — while the call that moved the breaker to half-open is in
  flight, every other call is rejected. `execute` checks only for `Open`, and
  any completion decides the state, so this holds exactly as long as nobody
  asks in half-open and no late call disturbs the trial (`TrialUndisturbed`);
* **reset timeout** — a breaker opened at `t` rejects until `t +
  reset_timeout`. `on_success` closes the breaker from any state, so this holds
  exactly as long as no late success arrives in an open breaker whose timeout
  is running (`NoEarlySuccess`).
-/

namespace TopdeskMcp.Theorems.Breaker

open TopdeskMcp Calls Trace Function

/-- `execute` rejects a call whose admission step is taken now. -/
def Rejects (s : Calls) (now : Nat) : Prop := s.breaker.enter now = none

instance (s : Calls) (now : Nat) : Decidable (Rejects s now) := by
  unfold Rejects; infer_instance

theorem rejects_iff {s : Calls} {now : Nat} : Rejects s now ↔
    s.breaker.inner.state = .opened ∧ s.breaker.elapsed now < s.breaker.resetTimeout :=
  CircuitBreaker.enter_eq_none_iff

/-! ## One trial call in half-open -/

/-- A call that moved the breaker from open to half-open has not completed. -/
def TrialInFlight (s : Calls) : Prop := ∃ trial, s.inFlight trial = some .trial

/-- While a trial is in flight, every other call is rejected. -/
def OneTrial (s : Calls) : Event → Prop
  | .enter _ now => TrialInFlight s → Rejects s now
  | _ => True

/-- The steps that leave a trial in flight alone: nobody calls `execute` while
the breaker is half-open, or open again with its timeout over, and no success
but the trial's own arrives. -/
def TrialUndisturbed (s : Calls) : Event → Prop
  | .enter _ now => TrialInFlight s →
      s.breaker.inner.state ≠ .halfOpen ∧
        (s.breaker.inner.state = .opened → s.breaker.elapsed now < s.breaker.resetTimeout)
  | .succeed call _ => TrialInFlight s → s.inFlight call = some .trial
  | _ => True

/-- In an undisturbed run there is at most one trial in flight, and the breaker
does not close under it. -/
structure TrialInv (s : Calls) : Prop where
  unique : ∀ c c', s.inFlight c = some .trial → s.inFlight c' = some .trial → c = c'
  notClosed : TrialInFlight s → s.breaker.inner.state ≠ .closed

theorem trialInFlight_of_update_none {s : Calls} {call : Nat} {b : CircuitBreaker} {t : Nat}
    (h : TrialInFlight { breaker := b, inFlight := update s.inFlight call none, clock := t }) :
    ∃ trial, trial ≠ call ∧ s.inFlight trial = some .trial := by
  obtain ⟨trial, htrial⟩ := h
  by_cases heq : trial = call
  · subst heq; simp at htrial
  · exact ⟨trial, heq, by simpa [update_of_ne heq] using htrial⟩

/-- A completion or a drop keeps the invariant when it does not close the
breaker under a trial that stays in flight. -/
theorem TrialInv.leave {s : Calls} (hI : TrialInv s) {call : Nat} {b : CircuitBreaker}
    {t : Nat}
    (hb : ∀ trial, trial ≠ call → s.inFlight trial = some .trial → b.inner.state ≠ .closed) :
    TrialInv { breaker := b, inFlight := update s.inFlight call none, clock := t } := by
  constructor
  · intro c c' hc hc'
    have hne : ∀ d, update s.inFlight call none d = some .trial → d ≠ call := by
      rintro d hd rfl
      simp at hd
    refine hI.unique c c' ?_ ?_
    · simpa [update_of_ne (hne c hc)] using hc
    · simpa [update_of_ne (hne c' hc')] using hc'
  · intro htrial
    obtain ⟨trial, hne, htr⟩ := trialInFlight_of_update_none htrial
    exact hb trial hne htr

/-- An undisturbed admission keeps the invariant: with a trial in flight it is
rejected, without one it can only start the first. -/
theorem TrialInv.enter {s s' : Calls} (hI : TrialInv s) {call : Nat} {now : Nat}
    (hC : TrialUndisturbed s (.enter call now)) (h : s.step (.enter call now) = some s') :
    TrialInv s' := by
  obtain ⟨-, hfree, ⟨-, rfl⟩ | ⟨b, hb, rfl⟩⟩ := step_enter h
  · exact ⟨hI.unique, hI.notClosed⟩
  · -- an undisturbed call that is admitted finds no trial in flight
    have hnone : ¬ TrialInFlight s := by
      intro htrial
      obtain ⟨hhalf, hopen⟩ := hC htrial
      cases hstate : s.breaker.inner.state with
      | closed => exact hI.notClosed htrial hstate
      | opened =>
          have : s.breaker.enter now = none := rejects_iff.mpr ⟨hstate, hopen hstate⟩
          simp [this] at hb
      | halfOpen => exact hhalf hstate
    have hold : ∀ c, update s.inFlight call (some s.admission) c = some .trial → c = call := by
      intro c hc
      by_contra hne
      exact hnone ⟨c, by simpa [update_of_ne hne] using hc⟩
    constructor
    · intro c c' hc hc'
      exact (hold c hc).trans (hold c' hc').symm
    · rintro ⟨c, hc⟩
      obtain rfl := hold c hc
      -- only an admission from open is a trial, and it leaves the breaker half-open
      obtain ⟨hnot, -⟩ | ⟨-, -, rfl⟩ := CircuitBreaker.enter_eq_some hb
      · simp [admission, hnot] at hc
      · simp

theorem trialInv_inductive (threshold : UInt32) (timeout : Nat) :
    (calls threshold timeout).Inductive TrialUndisturbed TrialInv := by
  intro s e s' hI hC h
  cases e with
  | enter call now => exact hI.enter hC h
  | succeed call now =>
      obtain ⟨-, -, rfl⟩ := step_succeed h
      refine hI.leave fun trial hne htr => ?_
      -- the only success allowed during a trial is its own, and it is alone
      exact absurd (hI.unique trial call htr (hC ⟨trial, htr⟩)) hne
  | fail call now =>
      obtain ⟨-, -, rfl⟩ := step_fail h
      exact hI.leave fun trial _ htr =>
        CircuitBreaker.onFailure_state_ne_closed (hI.notClosed ⟨trial, htr⟩) now
  | drop call now =>
      obtain ⟨-, -, rfl⟩ := step_drop h
      exact hI.leave fun trial _ htr => hI.notClosed ⟨trial, htr⟩

theorem trialInv_initial (threshold : UInt32) (timeout : Nat) (clock : Nat) :
    TrialInv (.initial threshold timeout clock) :=
  ⟨fun _ _ h _ => by simp [initial] at h, fun ⟨_, h⟩ => by simp [initial] at h⟩

/-- Under the invariant an undisturbed step rejects every rival of the trial. -/
theorem TrialInv.oneTrial {s : Calls} {e : Event} (hI : TrialInv s) (hC : TrialUndisturbed s e) :
    OneTrial s e := by
  cases e with
  | enter call now =>
      intro htrial
      obtain ⟨hhalf, hopen⟩ := hC htrial
      cases hstate : s.breaker.inner.state with
      | closed => exact absurd hstate (hI.notClosed htrial)
      | opened => exact rejects_iff.mpr ⟨hstate, hopen hstate⟩
      | halfOpen => exact absurd hstate hhalf
  | succeed => trivial
  | fail => trivial
  | drop => trivial

/-- A disturbing step either lets a second call through at once, or closes the
breaker under the trial so that the next call gets through. -/
theorem not_oneTrial_of_disturbed (threshold : UInt32) (timeout : Nat) {s s' : Calls}
    {e : Event} (h : s.step e = some s') (hC : ¬ TrialUndisturbed s e) :
    ∃ fs, ¬ (calls threshold timeout).Along OneTrial s (e :: fs) := by
  cases e with
  | enter call now =>
      -- the call itself is a second one beside the trial
      refine ⟨[], fun hone => hC fun htrial => ?_⟩
      obtain ⟨hopen, hlt⟩ := rejects_iff.mp (hone.head h htrial)
      exact ⟨by simp [hopen], fun _ => hlt⟩
  | succeed call now =>
      obtain ⟨-, -, rfl⟩ := step_succeed h
      simp only [TrialUndisturbed, Classical.not_imp] at hC
      obtain ⟨⟨trial, htr⟩, hother⟩ := hC
      have hne : trial ≠ call := by
        rintro rfl
        exact hother htr
      -- the breaker is closed, and the next call gets in
      refine ⟨[.enter call now], fun hone => ?_⟩
      have hlate := hone.tail h
      have hnext := step_enter_of_not_open call now
        (s := ⟨s.breaker.onSuccess, update s.inFlight call none, now⟩) (by simp) (by simp)
        (Nat.le_refl _)
      have hrejects := hlate.head hnext ⟨trial, by simp [update_of_ne hne, htr]⟩
      simpa using (rejects_iff.mp hrejects).1
  | fail => exact absurd trivial hC
  | drop => exact absurd trivial hC

/-- **One trial call.** In every interleaving in which the trial is left alone,
no other call is admitted while it is in flight; and the condition is exact: a
step that breaks it leads, at once or with the next call, to a second call
running beside the trial. -/
theorem one_trial (threshold : UInt32) (timeout : Nat) (clock : Nat) :
    (∀ es, (calls threshold timeout).Along TrialUndisturbed (.initial threshold timeout clock) es →
      (calls threshold timeout).Along OneTrial (.initial threshold timeout clock) es) ∧
    (∀ es e s s', (calls threshold timeout).run (.initial threshold timeout clock) es = some s →
      s.step e = some s' → ¬ TrialUndisturbed s e →
      ∃ fs, ¬ (calls threshold timeout).Along OneTrial (.initial threshold timeout clock)
        (es ++ e :: fs)) := by
  constructor
  · intro es hC
    exact (trialInv_inductive threshold timeout).along (trialInv_initial threshold timeout clock)
      hC fun _ _ _ hI hC _ => hI.oneTrial hC
  · intro es e s s' hrun hstep hC
    obtain ⟨fs, hfs⟩ := not_oneTrial_of_disturbed threshold timeout hstep hC
    exact ⟨fs, fun hone => hfs ((Lts.along_append.mp hone).2 s hrun)⟩

/-- Without the condition the promise fails: after the only failure of a breaker
with threshold 1 and timeout 10, two calls arrive at time 10 and both run. -/
theorem one_trial_fails : ¬ (calls 1 10).Along OneTrial (.initial 1 10 0)
    [.enter 0 0, .fail 0 0, .enter 1 10, .enter 2 10] := by
  intro h
  have hrejects : Rejects _ 10 := (((h.tail rfl).tail rfl).tail rfl).head rfl ⟨1, rfl⟩
  exact absurd hrejects (by decide)

/-- A late failure reopens the breaker under a trial, and the next call is
rejected although the trial is still in flight. -/
theorem one_trial_reopened : (calls 1 10).Along OneTrial (.initial 1 10 0)
    [.enter 0 0, .enter 1 0, .fail 0 1, .enter 2 11, .fail 1 12, .enter 3 13] := by
  refine (one_trial 1 10 0).1 _ ?_
  refine Lts.Along.cons (fun ⟨c, hc⟩ => ?_) rfl (Lts.Along.cons (fun ⟨c, hc⟩ => ?_) rfl
    (Lts.Along.cons trivial rfl (Lts.Along.cons (fun ⟨c, hc⟩ => ?_) rfl
    (Lts.Along.cons trivial rfl (Lts.Along.cons (fun _ => ⟨by decide, fun _ => by decide⟩) rfl
    trivial)))))
  · simp [initial] at hc
  · simp [initial, update, admission, CircuitBreaker.new] at hc
  · simp [initial, update, admission, CircuitBreaker.new] at hc
    have hsome := hc.2
    split_ifs at hsome <;> simp at hsome

/-! ## An open breaker stays open for its reset timeout -/

/-- Calls that ask before the deadline are rejected. -/
def RejectsUntil (deadline : Nat) (s : Calls) : Event → Prop
  | .enter _ now => now < deadline → Rejects s now
  | _ => True

/-- Whenever a failure opens the breaker at `t`, the rest of the run is rejected
until `t + reset_timeout`. -/
def StaysOpen (threshold : UInt32) (timeout : Nat) (s₀ : Calls) (es : List Event) : Prop :=
  ∀ pre call t post s s', es = pre ++ .fail call t :: post →
    (calls threshold timeout).run s₀ pre = some s → s.breaker.Opens →
    s.step (.fail call t) = some s' →
    (calls threshold timeout).Along (RejectsUntil (t + timeout)) s' post

/-- No call succeeds while the breaker is open and its timeout is running. -/
def NoEarlySuccess (s : Calls) : Event → Prop
  | .succeed _ now => s.breaker.inner.state = .opened →
      s.breaker.resetTimeout ≤ s.breaker.elapsed now
  | _ => True

/-- The breaker opened at `t` (or was opened again since), or its timeout is over. -/
structure OpenSince (t : Nat) (timeout : Nat) (s : Calls) : Prop where
  resetTimeout : s.breaker.resetTimeout = timeout
  clock : t ≤ s.clock
  opened : (s.breaker.inner.state = .opened ∧
    ∃ openedAt, s.breaker.inner.openedAt = some openedAt ∧ t ≤ openedAt) ∨ t + timeout ≤ s.clock

/-- Time that has elapsed since the opening has elapsed since `t`. -/
theorem elapsed_le {b : CircuitBreaker} {t openedAt : Nat} (now : Nat)
    (h : b.inner.openedAt = some openedAt) (ht : t ≤ openedAt) : b.elapsed now ≤ now - t := by
  simp only [CircuitBreaker.elapsed, h]
  omega

/-- So the timeout is over since `t` once it is over since the opening. -/
theorem timeout_over {b : CircuitBreaker} {t timeout openedAt now : Nat}
    (h : b.inner.openedAt = some openedAt) (ht : t ≤ openedAt) (hnow : t ≤ now)
    (hge : timeout ≤ b.elapsed now) : t + timeout ≤ now := by
  have hel := elapsed_le now h ht
  omega

theorem openSince_inductive (threshold : UInt32) (timeout : Nat) (t : Nat) :
    (calls threshold timeout).Inductive NoEarlySuccess (OpenSince t timeout) := by
  intro s e s' hI hC h
  have hclock := step_clock h
  have hreset := (step_resetTimeout h).trans hI.resetTimeout
  have ht : t ≤ s'.clock := by have := hI.clock; omega
  refine ⟨hreset, ht, ?_⟩
  rcases hI.opened with ⟨hopen, openedAt, hat, hle⟩ | hover
  · -- the breaker is open: each step keeps it open, or the timeout is over
    cases e with
    | enter call now =>
        obtain ⟨-, -, ⟨-, rfl⟩ | ⟨b, hb, rfl⟩⟩ := step_enter h
        · exact .inl ⟨hopen, openedAt, hat, hle⟩
        · obtain ⟨hnot, -⟩ | ⟨-, hge, -⟩ := CircuitBreaker.enter_eq_some hb
          · exact absurd hopen hnot
          · -- half-open is reached only once the timeout is over
            rw [hI.resetTimeout] at hge
            exact .inr (timeout_over hat hle ht hge)
    | succeed call now =>
        obtain ⟨-, -, rfl⟩ := step_succeed h
        have hge := hC hopen
        rw [hI.resetTimeout] at hge
        exact .inr (timeout_over hat hle ht hge)
    | fail call now =>
        obtain ⟨-, -, rfl⟩ := step_fail h
        refine .inl ?_
        by_cases hopens : s.breaker.Opens
        · exact ⟨by simp [CircuitBreaker.onFailure_of_opens hopens], now,
            by simp [CircuitBreaker.onFailure_of_opens hopens], ht⟩
        · exact ⟨by simp [CircuitBreaker.onFailure_of_not_opens hopens, hopen], openedAt,
            by simp [CircuitBreaker.onFailure_of_not_opens hopens, hat], hle⟩
    | drop call now =>
        obtain ⟨-, -, rfl⟩ := step_drop h
        exact .inl ⟨hopen, openedAt, hat, hle⟩
  · exact .inr (by omega)

/-- The opening step establishes the invariant. -/
theorem openSince_of_opens {s s' : Calls} {call : Nat} {t : Nat} (hopens : s.breaker.Opens)
    (h : s.step (.fail call t) = some s') : OpenSince t s.breaker.resetTimeout s' := by
  obtain ⟨-, -, rfl⟩ := step_fail h
  refine ⟨by simp, Nat.le_refl _, .inl ⟨?_, t, ?_, Nat.le_refl _⟩⟩
  · simp [CircuitBreaker.onFailure_of_opens hopens]
  · simp [CircuitBreaker.onFailure_of_opens hopens]

theorem OpenSince.rejectsUntil {t : Nat} {timeout : Nat} {s : Calls} {e : Event}
    (hI : OpenSince t timeout s) (hclock : s.clock ≤ e.time) :
    RejectsUntil (t + timeout) s e := by
  cases e with
  | enter call now =>
      intro hlt
      have hnow : s.clock ≤ now := hclock
      rcases hI.opened with ⟨hopen, openedAt, hat, hle⟩ | hover
      · have hel := elapsed_le now hat hle
        have ht := hI.clock
        exact rejects_iff.mpr ⟨hopen, by rw [hI.resetTimeout]; omega⟩
      · omega
  | succeed => trivial
  | fail => trivial
  | drop => trivial

/-- A breaker that is not closed was either opened by this very step or was
already not closed, with the same opening time. -/
theorem opened_by_step {s s' : Calls} {e : Event} (h : s.step e = some s')
    (hopen : s'.breaker.inner.state ≠ .closed) :
    (∃ call t, e = .fail call t ∧ s.breaker.Opens ∧ s'.breaker.inner.openedAt = some t) ∨
      (s.breaker.inner.state ≠ .closed ∧
        s'.breaker.inner.openedAt = s.breaker.inner.openedAt) := by
  cases e with
  | enter call now =>
      obtain ⟨-, -, ⟨-, rfl⟩ | ⟨b, hb, rfl⟩⟩ := step_enter h
      · exact .inr ⟨hopen, rfl⟩
      · obtain ⟨-, rfl⟩ | ⟨hwas, -, rfl⟩ := CircuitBreaker.enter_eq_some hb
        · exact .inr ⟨hopen, rfl⟩
        · exact .inr ⟨by simp [hwas], rfl⟩
  | succeed call now =>
      obtain ⟨-, -, rfl⟩ := step_succeed h
      exact absurd rfl hopen
  | fail call now =>
      obtain ⟨-, -, rfl⟩ := step_fail h
      by_cases hopens : s.breaker.Opens
      · exact .inl ⟨call, now, rfl, hopens, by simp [CircuitBreaker.onFailure_of_opens hopens]⟩
      · rw [CircuitBreaker.onFailure_of_not_opens hopens] at hopen ⊢
        exact .inr ⟨hopen, rfl⟩
  | drop call now =>
      obtain ⟨-, -, rfl⟩ := step_drop h
      exact .inr ⟨hopen, rfl⟩

/-- Where a run leaves the breaker not closed, some failure of the run opened it,
at the time `opened_at` still holds. -/
theorem exists_opening {threshold : UInt32} {timeout clock : Nat} {es : List Event} {s : Calls}
    (hrun : (calls threshold timeout).run (.initial threshold timeout clock) es = some s)
    (hopen : s.breaker.inner.state ≠ .closed) :
    ∃ pre call t post s₁ s₂, es = pre ++ .fail call t :: post ∧
      (calls threshold timeout).run (.initial threshold timeout clock) pre = some s₁ ∧
      s₁.breaker.Opens ∧ s₁.step (.fail call t) = some s₂ ∧
      (calls threshold timeout).run s₂ post = some s ∧ s.breaker.inner.openedAt = some t := by
  induction es using List.reverseRecOn generalizing s with
  | nil =>
      obtain rfl : Calls.initial threshold timeout clock = s := by simpa using hrun
      simp [initial, CircuitBreaker.new] at hopen
  | append_singleton es e ih =>
      -- from the end: the last step opened the breaker, or found it so
      obtain ⟨m, hm, hlast⟩ := Lts.run_append_eq_some.mp hrun
      obtain ⟨s', hstep, hend⟩ := Lts.run_cons_eq_some.mp hlast
      obtain rfl : s' = s := by simpa using hend
      rcases opened_by_step hstep hopen with ⟨call, t, rfl, hopens, hat⟩ | ⟨hwas, hsame⟩
      · exact ⟨es, call, t, [], m, s', rfl, hm, hopens, hstep, rfl, hat⟩
      · obtain ⟨pre, call, t, post, s₁, s₂, rfl, hpre, hopens, hfail, hpost, hat⟩ := ih hm hwas
        refine ⟨pre, call, t, post ++ [e], s₁, s₂, by simp, hpre, hopens, hfail, ?_,
          hsame.trans hat⟩
        exact Lts.run_append_eq_some.mpr ⟨m, hpost, hlast⟩

/-- The reset timeout a breaker was made with is the one it has. -/
theorem run_resetTimeout {threshold : UInt32} {timeout clock : Nat} {es : List Event} {s : Calls}
    (hrun : (calls threshold timeout).run (.initial threshold timeout clock) es = some s) :
    s.breaker.resetTimeout = timeout :=
  Lts.Inductive.reach (I := fun s => s.breaker.resetTimeout = timeout)
    (fun _ _ _ hI _ h => (step_resetTimeout h).trans hI) rfl hrun

/-- A success that arrives early closes the breaker, and the next call runs
before the timeout is over. -/
theorem not_staysOpen_of_early {threshold : UInt32} {timeout clock : Nat} {es : List Event}
    {e : Event} {s s' : Calls}
    (hrun : (calls threshold timeout).run (.initial threshold timeout clock) es = some s)
    (hstep : s.step e = some s') (hC : ¬ NoEarlySuccess s e) :
    ∃ fs, ¬ StaysOpen threshold timeout (.initial threshold timeout clock) (es ++ e :: fs) := by
  cases e with
  | succeed call now =>
      simp only [NoEarlySuccess, Classical.not_imp, Nat.not_le] at hC
      obtain ⟨hopen, hlt⟩ := hC
      obtain ⟨-, -, rfl⟩ := step_succeed hstep
      obtain ⟨pre, call', t, post, s₁, s₂, rfl, hpre, hopens, hfail, hpost, hat⟩ :=
        exists_opening hrun (by simp [hopen])
      refine ⟨[.enter call now], fun hstays => ?_⟩
      have hafter := hstays pre call' t (post ++ [.succeed call now, .enter call now]) s₁ s₂
        (by simp) hpre hopens hfail
      have hlate := ((Lts.along_append.mp hafter).2 s hpost).tail hstep
      have hnext := step_enter_of_not_open call now
        (s := ⟨s.breaker.onSuccess, update s.inFlight call none, now⟩) (by simp) (by simp)
        (Nat.le_refl _)
      have hbefore : now < t + timeout := by
        rw [run_resetTimeout hrun] at hlt
        simp only [CircuitBreaker.elapsed, hat] at hlt
        omega
      simpa using (rejects_iff.mp (hlate.head hnext hbefore)).1
  | enter => exact absurd trivial hC
  | fail => exact absurd trivial hC
  | drop => exact absurd trivial hC

/-- **Open for the reset timeout.** In every interleaving without an early
success, a breaker opened at `t` rejects every call until `t + reset_timeout`;
and the condition is exact: after an early success the next call runs. -/
theorem stays_open (threshold : UInt32) (timeout clock : Nat) :
    (∀ es, (calls threshold timeout).Along NoEarlySuccess (.initial threshold timeout clock) es →
      StaysOpen threshold timeout (.initial threshold timeout clock) es) ∧
    (∀ es e s s', (calls threshold timeout).run (.initial threshold timeout clock) es = some s →
      s.step e = some s' → ¬ NoEarlySuccess s e →
      ∃ fs, ¬ StaysOpen threshold timeout (.initial threshold timeout clock)
        (es ++ e :: fs)) := by
  constructor
  · rintro es hC pre call t post s s' rfl hpre hopens hfail
    have hpost : (calls threshold timeout).Along NoEarlySuccess s' post :=
      ((Lts.along_append.mp hC).2 s hpre).tail hfail
    have hI := openSince_of_opens hopens hfail
    rw [run_resetTimeout hpre] at hI
    exact (openSince_inductive threshold timeout t).along hI hpost fun _ _ _ hI _ hstep =>
      hI.rejectsUntil (step_clock hstep).1
  · intro es e s s' hrun hstep hC
    exact not_staysOpen_of_early hrun hstep hC

/-- Without the condition the promise fails: two failures open a breaker with
threshold 2 and timeout 10 at time 1, the third call succeeds at time 2, and a
call at time 3 runs. -/
theorem stays_open_fails : ¬ StaysOpen 2 10 (.initial 2 10 0)
    [.enter 0 0, .enter 1 0, .enter 2 0, .fail 0 1, .fail 1 1, .succeed 2 2, .enter 3 3] := by
  intro h
  have hopened := h [.enter 0 0, .enter 1 0, .enter 2 0, .fail 0 1] 1 1
    [.succeed 2 2, .enter 3 3] _ _ rfl rfl (by decide) rfl
  have hrejects : Rejects _ 3 := (hopened.tail rfl).head rfl (by decide)
  exact absurd hrejects (by decide)

/-- A late failure does no harm: opened at time 1, the breaker rejects at time 5. -/
theorem stays_open_late_failure : StaysOpen 2 10 (.initial 2 10 0)
    [.enter 0 0, .enter 1 0, .enter 2 0, .fail 0 1, .fail 1 1, .fail 2 2, .enter 3 5] := by
  refine (stays_open 2 10 0).1 _ ?_
  exact .cons trivial rfl (.cons trivial rfl (.cons trivial rfl (.cons trivial rfl
    (.cons trivial rfl (.cons trivial rfl (.cons trivial rfl trivial))))))

end TopdeskMcp.Theorems.Breaker
