import TopdeskMcp.Core.CircuitBreaker
import Mathlib.Data.List.DropRight

/-!
# The circuit breaker, stated over the history of outcomes

Three states, a counter that re-opening does not reset and a timestamp decide which
calls of a sequence are admitted. They come to a rule about the history alone:
`Trips` counts the failures since the last success and looks at the last of them,
and after any sequence of calls the next one is rejected exactly when it trips
(`rejected_iff_trips`).
-/

namespace TopdeskMcp.Theorems.Admission

open TopdeskMcp Trace

variable {α ε : Type}

/-- The admitted calls since the last admitted success, all of them failures. -/
def sinceSuccess (history : List (Settled α ε)) : List (Settled α ε) :=
  history.rtakeWhile Settled.failed

/-- At least `max 1 threshold` failures since the last success, the last of them less than
the reset timeout before `t`. -/
def Trips (threshold : UInt32) (timeout : Nat) (history : List (Settled α ε)) (t : Nat) : Prop :=
  max 1 threshold.toNat ≤ (sinceSuccess history).length ∧
    ∃ last, (sinceSuccess history).getLast? = some last ∧ t - last.finish < timeout

/-- A call at `t` is rejected, whatever its closure would do: it returns the breaker's own
error, and the breaker stays as it is. -/
def Rejected (α ε : Type) (b : CircuitBreaker) (t : Nat) : Prop :=
  ∀ finish (f : Unit → Option (Except ε α)), b.execute t finish f = (some (.error .opened), b)

/-- A call at `t` is admitted: it returns what its closure returns. -/
def Admitted (α ε : Type) (b : CircuitBreaker) (t : Nat) : Prop :=
  ∀ finish (f : Unit → Option (Except ε α)),
    (b.execute t finish f).1 = (f ()).map (Except.mapError .inner)

theorem rejected_of_enter {b : CircuitBreaker} {t : Nat} (h : b.enter t = none) :
    Rejected α ε b t := by
  intro finish f
  simp only [CircuitBreaker.execute, h]

theorem admitted_of_enter {b : CircuitBreaker} {t : Nat} (h : b.enter t ≠ none) :
    Admitted α ε b t := by
  intro finish f
  obtain ⟨b', hb'⟩ := Option.ne_none_iff_exists'.mp h
  simp only [CircuitBreaker.execute, hb']
  cases f () with
  | none => rfl
  | some result => cases result <;> rfl

/-- A call is rejected exactly when `enter` turns it away. -/
theorem rejected_iff {b : CircuitBreaker} {t : Nat} : Rejected α ε b t ↔ b.enter t = none := by
  refine ⟨fun h => ?_, rejected_of_enter⟩
  by_contra hne
  -- a closure that never returns tells the two apart
  have hadmitted := admitted_of_enter (α := α) (ε := ε) hne t fun _ => none
  rw [h t fun _ => none] at hadmitted
  simp at hadmitted

/-! ## The history of a run -/

/-- When the last failure since the last success ended. -/
def lastFinish (history : List (Settled α ε)) : Nat :=
  ((sinceSuccess history).getLast?.map Settled.finish).getD 0

theorem sinceSuccess_failure {history : List (Settled α ε)} {call : Settled α ε}
    (h : call.failed = true) :
    sinceSuccess (history ++ [call]) = sinceSuccess history ++ [call] :=
  List.rtakeWhile_concat_pos _ _ _ h

theorem sinceSuccess_success {history : List (Settled α ε)} {call : Settled α ε}
    (h : ¬ call.failed = true) : sinceSuccess (history ++ [call]) = [] :=
  List.rtakeWhile_concat_neg _ _ _ h

/-- The breaker remembers the failures since the last success. -/
structure Faithful (threshold : UInt32) (timeout : Nat) (s : Turns α ε) : Prop where
  threshold_eq : s.breaker.failureThreshold = threshold
  timeout_eq : s.breaker.resetTimeout = timeout
  remembers : s.breaker.Remembers (sinceSuccess s.history).length (lastFinish s.history) s.clock

theorem faithful_initial (threshold : UInt32) (timeout clock : Nat) :
    Faithful threshold timeout (.initial threshold timeout clock : Turns α ε) where
  threshold_eq := rfl
  timeout_eq := rfl
  remembers := CircuitBreaker.remembers_new threshold timeout _ clock

/-- What entering leaves of the breaker's settings. -/
theorem enter_settings {b b' : CircuitBreaker} {now : Nat} (h : b.enter now = some b') :
    b'.failureThreshold = b.failureThreshold ∧ b'.resetTimeout = b.resetTimeout := by
  obtain ⟨-, rfl⟩ | ⟨-, -, rfl⟩ := CircuitBreaker.enter_eq_some h <;> exact ⟨rfl, rfl⟩

theorem faithful_inductive (threshold : UInt32) (timeout : Nat) :
    (turns α ε threshold timeout).Inductive (fun _ _ => True) (Faithful threshold timeout) := by
  rintro s ⟨start, finish, outcome⟩ s' hI - h
  obtain ⟨⟨hstart, hfinish⟩, rfl⟩ := Turns.step_eq_some.mp h
  cases henter : s.breaker.enter start with
  | none =>
      -- rejected: only time has passed
      simp only [CircuitBreaker.execute, Turns.settled, henter, Option.isSome_none,
        Bool.false_eq_true, if_false, List.append_nil]
      exact ⟨hI.threshold_eq, hI.timeout_eq, hI.remembers.mono (Nat.le_trans hstart hfinish)⟩
  | some b =>
      obtain ⟨hthreshold, htimeout⟩ := enter_settings henter
      obtain ⟨hremembers, hstate⟩ := hI.remembers.enter hstart henter
      simp only [CircuitBreaker.execute, Turns.settled, henter, Option.isSome_some, if_true]
      rcases outcome with _ | (err | value)
      · -- dropped: it leaves no mark on the history
        simp only [Option.map_none, Option.toList_none, List.append_nil]
        exact ⟨hthreshold.trans hI.threshold_eq, htimeout.trans hI.timeout_eq,
          hremembers.mono hfinish⟩
      · -- failed: one more failure in the row
        refine ⟨by simpa using hthreshold.trans hI.threshold_eq,
          by simpa using htimeout.trans hI.timeout_eq, ?_⟩
        simp only [Option.map_some, Option.toList_some, lastFinish]
        rw [sinceSuccess_failure rfl, List.length_append, List.getLast?_concat]
        exact hremembers.onFailure hstate finish
      · -- succeeded: the row starts again
        refine ⟨hthreshold.trans hI.threshold_eq, htimeout.trans hI.timeout_eq, ?_⟩
        simp only [Option.map_some, Option.toList_some, lastFinish]
        rw [sinceSuccess_success (by simp [Settled.failed, Except.isOk, Except.toBool])]
        exact .onSuccess b _ finish

theorem Faithful.enter_eq_none_iff {threshold : UInt32} {timeout : Nat} {s : Turns α ε}
    (h : Faithful threshold timeout s) {t : Nat} (ht : s.clock ≤ t) :
    s.breaker.enter t = none ↔ Trips threshold timeout s.history t := by
  rw [h.remembers.enter_eq_none_iff ht, CircuitBreaker.tripCount, h.threshold_eq, h.timeout_eq,
    Trips, lastFinish]
  refine and_congr_right fun hcount => ?_
  cases hlast : (sinceSuccess s.history).getLast? with
  | none =>
      -- the row is not empty
      rw [List.getLast?_eq_none_iff.mp hlast, List.length_nil] at hcount
      omega
  | some last => simp

/-- **Admission from history.** After any sequence of calls that do not overlap, a call at
`t` is rejected if and only if the calls since the last success are at least
`max 1 threshold` failures and the last of them ended less than the reset timeout before;
any other call runs its closure and returns what it returns. -/
theorem rejected_iff_trips (threshold : UInt32) (timeout clock : Nat) (calls : List (Turn α ε))
    (s : Turns α ε)
    (hrun : (turns α ε threshold timeout).run (.initial threshold timeout clock) calls = some s)
    (t : Nat) (ht : s.clock ≤ t) :
    (Rejected α ε s.breaker t ↔ Trips threshold timeout s.history t) ∧
      (¬ Trips threshold timeout s.history t → Admitted α ε s.breaker t) := by
  have hfaithful := (faithful_inductive threshold timeout).reach
    (faithful_initial threshold timeout clock) hrun
  have henter := hfaithful.enter_eq_none_iff ht
  exact ⟨rejected_iff.trans henter, fun htrips => admitted_of_enter (henter.not.mpr htrips)⟩

/-- Two failures, and a third one ten time units later. -/
def threeFailures : List (Turn Unit Unit) :=
  [⟨0, 0, some (.error ())⟩, ⟨0, 1, some (.error ())⟩, ⟨11, 11, some (.error ())⟩]

/-- With threshold 2 and timeout 10 the third failure re-opens the breaker until 21. -/
theorem rejected_iff_trips_reopened : ∃ s : Turns Unit Unit,
    (turns Unit Unit 2 10).run (.initial 2 10 0) threeFailures = some s ∧
    Rejected Unit Unit s.breaker 20 ∧ Admitted Unit Unit s.breaker 21 := by
  obtain ⟨s, hrun⟩ : ∃ s, (turns Unit Unit 2 10).run (.initial 2 10 0) threeFailures = some s :=
    ⟨_, rfl⟩
  have hclock : s.clock = 11 ∧ sinceSuccess s.history =
      [⟨0, .error ()⟩, ⟨1, .error ()⟩, ⟨11, .error ()⟩] := by
    obtain rfl := Option.some.inj hrun
    exact ⟨rfl, rfl⟩
  obtain ⟨hclock, hhistory⟩ := hclock
  have hrule := fun t ht => rejected_iff_trips 2 10 0 threeFailures s hrun t ht
  refine ⟨s, hrun, (hrule 20 (by omega)).1.mpr ?_, (hrule 21 (by omega)).2 ?_⟩
  · rw [Trips, hhistory]
    exact ⟨by decide, _, rfl, by decide⟩
  · rw [Trips, hhistory]
    rintro ⟨-, last, hlast, hrecent⟩
    obtain rfl := Option.some.inj hlast
    exact absurd hrecent (by decide)

end TopdeskMcp.Theorems.Admission
