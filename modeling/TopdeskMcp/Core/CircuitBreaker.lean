import TopdeskMcp.Lib.Trace
import Mathlib.Tactic.Common

/-!
# The circuit breaker (`core/circuit_breaker.rs`)

`CircuitBreaker::execute` locks the shared state twice: once to enter the
call, once to record how it ended. The lock is free while the wrapped call
runs, so the model splits `execute` into an admission step (`enter`) and a
completion step (`onSuccess`, `onFailure`); a call whose future is dropped in
between never completes.

* `execute` is one call made on its own, and `turns` the transition system of any
  sequence of such calls;
* `Remembers` is what the guarded state says about the outcomes before it;
* `Calls` is the breaker together with every call in flight, and `calls` the
  transition system of all interleavings of admissions, completions and drops.

`failure_count` is a `u32`: release builds, which is what the crate ships, wrap
on overflow, and so does `UInt32` here.
-/

namespace TopdeskMcp

/-- `Duration::from_secs`. Durations and monotonic clock readings (`Instant`)
are counted in nanoseconds. -/
def durationFromSecs (secs : Nat) : Nat := secs * 1000000000

/-- The states `Closed`, `Open` and `HalfOpen`. -/
inductive State where
  | closed
  | opened
  | halfOpen
  deriving DecidableEq, Repr

/-- What the breaker's mutex guards. -/
structure Inner where
  state : State
  failureCount : UInt32
  openedAt : Option Nat
  deriving DecidableEq, Repr

/-- Either the breaker was open and the call never ran, or the call's own error. -/
inductive CircuitBreakerError (ε : Type) where
  | opened
  | inner (err : ε)

structure CircuitBreaker where
  failureThreshold : UInt32
  resetTimeout : Nat
  inner : Inner
  deriving DecidableEq, Repr

namespace CircuitBreaker

def new (failureThreshold : UInt32) (resetTimeout : Nat) : CircuitBreaker where
  failureThreshold := failureThreshold
  resetTimeout := resetTimeout
  inner := { state := .closed, failureCount := 0, openedAt := none }

def default : CircuitBreaker := new 5 (durationFromSecs 30)

/-- `opened_at.map(|at| at.elapsed()).unwrap_or_default()`; `elapsed` saturates
at zero. -/
def elapsed (b : CircuitBreaker) (now : Nat) : Nat :=
  match b.inner.openedAt with
  | some openedAt => now - openedAt
  | none => 0

/-- The locked block at the head of `execute`: `none` when the call is rejected
with `CircuitBreakerError::Open`. -/
def enter (b : CircuitBreaker) (now : Nat) : Option CircuitBreaker :=
  if b.inner.state = .opened then
    if b.elapsed now < b.resetTimeout then none
    else some { b with inner := { b.inner with state := .halfOpen } }
  else some b

def onSuccess (b : CircuitBreaker) : CircuitBreaker :=
  { b with inner := { b.inner with failureCount := 0, state := .closed } }

/-- The guard of `on_failure`: this failure opens the breaker. -/
def Opens (b : CircuitBreaker) : Prop :=
  b.inner.state = .halfOpen ∨ b.failureThreshold ≤ b.inner.failureCount + 1

instance (b : CircuitBreaker) : Decidable b.Opens := by
  unfold Opens; infer_instance

def onFailure (b : CircuitBreaker) (now : Nat) : CircuitBreaker :=
  let failureCount := b.inner.failureCount + 1
  if b.Opens then
    { b with inner := { state := .opened, failureCount, openedAt := some now } }
  else { b with inner := { b.inner with failureCount } }

/-- `execute` for a call that overlaps no other: admitted at `now`, and settled
at `finish` with what the closure returns (`none` when its future never
resolves). -/
def execute {α ε : Type} (b : CircuitBreaker) (now finish : Nat)
    (f : Unit → Option (Except ε α)) :
    Option (Except (CircuitBreakerError ε) α) × CircuitBreaker :=
  match b.enter now with
  | none => (some (.error .opened), b)
  | some b =>
      match f () with
      | none => (none, b)
      | some (.ok value) => (some (.ok value), b.onSuccess)
      | some (.error err) => (some (.error (.inner err)), b.onFailure finish)

/-! ## What each step does to the guarded state -/

@[simp] theorem onSuccess_state (b : CircuitBreaker) : b.onSuccess.inner.state = .closed := rfl

@[simp] theorem onFailure_resetTimeout (b : CircuitBreaker) (now : Nat) :
    (b.onFailure now).resetTimeout = b.resetTimeout := by
  unfold onFailure; split <;> rfl

theorem onFailure_of_opens {b : CircuitBreaker} (h : b.Opens) (now : Nat) :
    (b.onFailure now).inner =
      { state := .opened, failureCount := b.inner.failureCount + 1, openedAt := some now } := by
  simp only [onFailure, if_pos h]

theorem onFailure_of_not_opens {b : CircuitBreaker} (h : ¬ b.Opens) (now : Nat) :
    (b.onFailure now).inner =
      { b.inner with failureCount := b.inner.failureCount + 1 } := by
  simp only [onFailure, if_neg h]

/-- A failure never closes the breaker. -/
theorem onFailure_state_ne_closed {b : CircuitBreaker} (h : b.inner.state ≠ .closed)
    (now : Nat) : (b.onFailure now).inner.state ≠ .closed := by
  by_cases hopens : b.Opens
  · rw [onFailure_of_opens hopens]; simp
  · rw [onFailure_of_not_opens hopens]; exact h

theorem enter_eq_none_iff {b : CircuitBreaker} {now : Nat} :
    b.enter now = none ↔ b.inner.state = .opened ∧ b.elapsed now < b.resetTimeout := by
  unfold enter
  split
  · rename_i hopen
    split
    · rename_i hlt
      exact ⟨fun _ => ⟨hopen, hlt⟩, fun _ => rfl⟩
    · rename_i hge
      exact ⟨fun h => by simp at h, fun h => absurd h.2 hge⟩
  · rename_i hnot
    exact ⟨fun h => by simp at h, fun h => absurd h.1 hnot⟩

/-- An admission either leaves the breaker alone or moves it from open to half-open. -/
theorem enter_eq_some {b b' : CircuitBreaker} {now : Nat} (h : b.enter now = some b') :
    (b.inner.state ≠ .opened ∧ b' = b) ∨
      (b.inner.state = .opened ∧ b.resetTimeout ≤ b.elapsed now ∧
        b' = { b with inner := { b.inner with state := .halfOpen } }) := by
  unfold enter at h
  split at h
  · rename_i hopen
    split at h
    · simp at h
    · rename_i hge
      exact .inr ⟨hopen, Nat.le_of_not_lt hge, (Option.some.inj h).symm⟩
  · rename_i hnot
    exact .inl ⟨hnot, (Option.some.inj h).symm⟩

@[simp] theorem onFailure_failureThreshold (b : CircuitBreaker) (now : Nat) :
    (b.onFailure now).failureThreshold = b.failureThreshold := by
  unfold onFailure; split <;> rfl

/-! ## What the guarded state remembers -/

/-- How many failures in a row open the breaker. -/
def tripCount (b : CircuitBreaker) : Nat := max 1 b.failureThreshold.toNat

/-- The guarded state after `count` failures in a row, the last of them at `last`: closed
while they are too few, then open since the last one, or half-open once the reset timeout
is over. -/
def Remembers (b : CircuitBreaker) (count last clock : Nat) : Prop :=
  (count < b.tripCount ∧ b.inner.state = .closed ∧ b.inner.failureCount.toNat = count) ∨
    (b.tripCount ≤ count ∧ b.inner.openedAt = some last ∧
      (b.inner.state = .opened ∨ b.inner.state = .halfOpen ∧ b.resetTimeout ≤ clock - last))

variable {b b' : CircuitBreaker} {count last clock now : Nat}

theorem remembers_new (failureThreshold : UInt32) (resetTimeout last clock : Nat) :
    (new failureThreshold resetTimeout).Remembers 0 last clock := by
  refine .inl ⟨?_, rfl, rfl⟩
  unfold tripCount
  omega

theorem Remembers.mono (h : b.Remembers count last clock) (hle : clock ≤ now) :
    b.Remembers count last now := by
  rcases h with hclosed | ⟨hcount, hat, hopened | ⟨hhalf, hover⟩⟩
  · exact .inl hclosed
  · exact .inr ⟨hcount, hat, .inl hopened⟩
  · exact .inr ⟨hcount, hat, .inr ⟨hhalf, by omega⟩⟩

/-- A call is rejected exactly when enough failures have come in a row, the last less
than the reset timeout ago. -/
theorem Remembers.enter_eq_none_iff (h : b.Remembers count last clock) (hnow : clock ≤ now) :
    b.enter now = none ↔ b.tripCount ≤ count ∧ now - last < b.resetTimeout := by
  rw [CircuitBreaker.enter_eq_none_iff]
  rcases h with ⟨hcount, hstate, -⟩ | ⟨hcount, hat, hstate | ⟨hstate, hover⟩⟩
  · simp only [hstate]
    exact ⟨fun h => by simp at h, fun h => by omega⟩
  · simp only [hstate, elapsed, hat, hcount]
  · simp only [hstate]
    exact ⟨fun h => by simp at h, fun h => by omega⟩

/-- An admitted call finds the breaker closed or half-open. -/
theorem Remembers.enter (h : b.Remembers count last clock) (hnow : clock ≤ now)
    (henter : b.enter now = some b') :
    b'.Remembers count last now ∧ b'.inner.state ≠ .opened := by
  obtain ⟨hstate, rfl⟩ | ⟨hopened, hover, rfl⟩ := enter_eq_some henter
  · exact ⟨h.mono hnow, hstate⟩
  · refine ⟨?_, by simp⟩
    rcases h with ⟨-, hclosed, -⟩ | ⟨hcount, hat, hopen | ⟨hhalf, hpast⟩⟩
    · simp [hclosed] at hopened
    · simp only [elapsed, hat] at hover
      exact .inr ⟨hcount, hat, .inr ⟨rfl, hover⟩⟩
    · simp [hhalf] at hopened

theorem Remembers.onSuccess (b : CircuitBreaker) (last clock : Nat) :
    b.onSuccess.Remembers 0 last clock := by
  refine .inl ⟨?_, rfl, rfl⟩
  unfold tripCount
  omega

/-- A failure after an admission is one more in the row. The count is read only below the
threshold, where it is far from wrapping. -/
theorem Remembers.onFailure (h : b.Remembers count last clock) (hstate : b.inner.state ≠ .opened)
    (finish : Nat) : (b.onFailure finish).Remembers (count + 1) finish finish := by
  have htrip : (b.onFailure finish).tripCount = b.tripCount := by simp [tripCount]
  unfold Remembers
  rw [htrip]
  rcases h with ⟨hcount, hclosed, hsame⟩ | ⟨hcount, -, hopened | ⟨hhalf, -⟩⟩
  · have hlt := b.failureThreshold.toNat_lt
    have hnext : (b.inner.failureCount + 1).toNat = count + 1 := by
      rw [UInt32.toNat_add, hsame]
      unfold tripCount at hcount
      show (count + 1) % 2 ^ 32 = count + 1
      omega
    have hopens : b.Opens ↔ b.tripCount ≤ count + 1 := by
      rw [Opens, hclosed, UInt32.le_iff_toNat_le, hnext, tripCount]
      simp only [reduceCtorEq, false_or]
      omega
    by_cases htrips : b.tripCount ≤ count + 1
    · rw [onFailure_of_opens (hopens.mpr htrips)]
      exact .inr ⟨htrips, rfl, .inl rfl⟩
    · rw [onFailure_of_not_opens (hopens.not.mpr htrips)]
      exact .inl ⟨by omega, hclosed, hnext⟩
  · exact absurd hopened hstate
  · rw [onFailure_of_opens (.inl hhalf)]
    exact .inr ⟨by omega, rfl, .inl rfl⟩

end CircuitBreaker

/-! ## Calls that do not overlap -/

/-- A call of `execute`: its start, its end, and what its closure returns, if it does. -/
structure Turn (α ε : Type) where
  start : Nat
  finish : Nat
  outcome : Option (Except ε α)

/-- An admitted call that has returned. -/
structure Settled (α ε : Type) where
  finish : Nat
  result : Except ε α

def Settled.failed {α ε : Type} (call : Settled α ε) : Bool := !call.result.isOk

/-- A breaker, the admitted calls that have returned, and the end of the last call. -/
structure Turns (α ε : Type) where
  breaker : CircuitBreaker
  history : List (Settled α ε)
  clock : Nat

namespace Turns

variable {α ε : Type}

def initial (failureThreshold : UInt32) (resetTimeout clock : Nat) : Turns α ε where
  breaker := .new failureThreshold resetTimeout
  history := []
  clock := clock

/-- What a call adds to the history: nothing if it is rejected or never returns. -/
def settled (b : CircuitBreaker) (turn : Turn α ε) : List (Settled α ε) :=
  if (b.enter turn.start).isSome then
    (turn.outcome.map fun result => { finish := turn.finish, result }).toList
  else []

def step (s : Turns α ε) (turn : Turn α ε) : Option (Turns α ε) :=
  if s.clock ≤ turn.start ∧ turn.start ≤ turn.finish then
    some { breaker := (s.breaker.execute turn.start turn.finish fun _ => turn.outcome).2
           history := s.history ++ settled s.breaker turn
           clock := turn.finish }
  else none

theorem step_eq_some {s s' : Turns α ε} {turn : Turn α ε} : s.step turn = some s' ↔
    (s.clock ≤ turn.start ∧ turn.start ≤ turn.finish) ∧
      s' = { breaker := (s.breaker.execute turn.start turn.finish fun _ => turn.outcome).2
             history := s.history ++ settled s.breaker turn
             clock := turn.finish } := by
  rw [step, Option.ite_none_right_eq_some, Option.some.injEq, eq_comm]

end Turns

/-- Any sequence of `execute` calls on one fresh breaker, each over before the next. -/
def turns (α ε : Type) (failureThreshold : UInt32) (resetTimeout : Nat) :
    Trace.Lts (Turns α ε) (Turn α ε) where
  init s := ∃ clock, s = .initial failureThreshold resetTimeout clock
  step := Turns.step

/-! ## All interleavings of `execute` calls -/

/-- How a call in flight got past the admission step: as the call that moved
the breaker from open to half-open, or otherwise. -/
inductive Admission where
  | ordinary
  | trial
  deriving DecidableEq, Repr

/-- The shared breaker, the calls in flight, and the time of the last step. -/
structure Calls where
  breaker : CircuitBreaker
  inFlight : Nat → Option Admission
  clock : Nat

namespace Calls

/-- One locked section of one `execute` call, or the drop of its future. -/
inductive Event where
  | enter (call : Nat) (now : Nat)
  | succeed (call : Nat) (now : Nat)
  | fail (call : Nat) (now : Nat)
  | drop (call : Nat) (now : Nat)

def Event.time : Event → Nat
  | .enter _ now | .succeed _ now | .fail _ now | .drop _ now => now

def initial (failureThreshold : UInt32) (resetTimeout : Nat) (clock : Nat) : Calls where
  breaker := .new failureThreshold resetTimeout
  inFlight := fun _ => none
  clock := clock

/-- The kind of admission that `execute` gives a call in this state. -/
def admission (s : Calls) : Admission :=
  if s.breaker.inner.state = .opened then .trial else .ordinary

/-- A call in flight leaves, and the breaker becomes what its last step made it. -/
def leave (s : Calls) (call : Nat) (now : Nat) (breaker : CircuitBreaker) : Option Calls :=
  if s.inFlight call = none then none
  else some { breaker, inFlight := Function.update s.inFlight call none, clock := now }

/-- The locked section itself. A call is admitted at most once at a time, and
only a call in flight completes or is dropped. -/
def act (s : Calls) : Event → Option Calls
  | .enter call now =>
      if s.inFlight call ≠ none then none
      else
        match s.breaker.enter now with
        -- rejected: the closure never runs, and nothing is in flight
        | none => some { s with clock := now }
        -- admitted: the lock is free again while the closure runs
        | some breaker => some
            { breaker, inFlight := Function.update s.inFlight call (some s.admission),
              clock := now }
  | .succeed call now => s.leave call now s.breaker.onSuccess
  | .fail call now => s.leave call now (s.breaker.onFailure now)
  | .drop call now => s.leave call now s.breaker

/-- Time does not run backwards. -/
def step (s : Calls) (e : Event) : Option Calls :=
  if s.clock ≤ e.time then s.act e else none

end Calls

/-- Every interleaving of any number of `execute` calls on one fresh breaker. -/
def calls (failureThreshold : UInt32) (resetTimeout : Nat) : Trace.Lts Calls Calls.Event where
  init := fun s => ∃ clock, s = .initial failureThreshold resetTimeout clock
  step := Calls.step

namespace Calls

/-! ### Step inversion: all a step can do -/

theorem step_eq_some {s s' : Calls} {e : Event} :
    s.step e = some s' ↔ s.clock ≤ e.time ∧ s.act e = some s' := by
  unfold step
  split <;> simp_all

theorem leave_eq_some {s s' : Calls} {call : Nat} {now : Nat} {b : CircuitBreaker} :
    s.leave call now b = some s' ↔ s.inFlight call ≠ none ∧
      s' = { breaker := b, inFlight := Function.update s.inFlight call none, clock := now } := by
  unfold leave
  split
  · simp_all
  · rename_i hbusy
    exact ⟨fun h => ⟨hbusy, (Option.some.inj h).symm⟩, fun h => congrArg some h.2.symm⟩

theorem step_enter {s s' : Calls} {call : Nat} {now : Nat}
    (h : s.step (.enter call now) = some s') :
    s.clock ≤ now ∧ s.inFlight call = none ∧
      ((s.breaker.enter now = none ∧ s' = { s with clock := now }) ∨
        ∃ breaker, s.breaker.enter now = some breaker ∧
          s' = { breaker, inFlight := Function.update s.inFlight call (some s.admission),
                 clock := now }) := by
  obtain ⟨hclock, hact⟩ := step_eq_some.mp h
  refine ⟨hclock, ?_⟩
  by_cases hfree : s.inFlight call = none
  · simp only [act, hfree, ne_eq, not_true_eq_false, if_false] at hact
    refine ⟨hfree, ?_⟩
    cases henter : s.breaker.enter now with
    | none =>
        rw [henter] at hact
        exact .inl ⟨rfl, (Option.some.inj hact).symm⟩
    | some breaker =>
        rw [henter] at hact
        exact .inr ⟨breaker, rfl, (Option.some.inj hact).symm⟩
  · simp [act, hfree] at hact

theorem step_succeed {s s' : Calls} {call : Nat} {now : Nat}
    (h : s.step (.succeed call now) = some s') :
    s.clock ≤ now ∧ s.inFlight call ≠ none ∧
      s' = { breaker := s.breaker.onSuccess,
             inFlight := Function.update s.inFlight call none, clock := now } :=
  have hstep := step_eq_some.mp h
  ⟨hstep.1, leave_eq_some.mp hstep.2⟩

theorem step_fail {s s' : Calls} {call : Nat} {now : Nat}
    (h : s.step (.fail call now) = some s') :
    s.clock ≤ now ∧ s.inFlight call ≠ none ∧
      s' = { breaker := s.breaker.onFailure now,
             inFlight := Function.update s.inFlight call none, clock := now } :=
  have hstep := step_eq_some.mp h
  ⟨hstep.1, leave_eq_some.mp hstep.2⟩

theorem step_drop {s s' : Calls} {call : Nat} {now : Nat}
    (h : s.step (.drop call now) = some s') :
    s.clock ≤ now ∧ s.inFlight call ≠ none ∧
      s' = { s with inFlight := Function.update s.inFlight call none, clock := now } :=
  have hstep := step_eq_some.mp h
  ⟨hstep.1, leave_eq_some.mp hstep.2⟩

/-- A breaker that is not open admits every new call. -/
theorem step_enter_of_not_open {s : Calls} (call now : Nat)
    (hstate : s.breaker.inner.state ≠ .opened) (hfree : s.inFlight call = none)
    (hclock : s.clock ≤ now) :
    s.step (.enter call now) = some
      { s with inFlight := Function.update s.inFlight call (some .ordinary), clock := now } := by
  have henter : s.breaker.enter now = some s.breaker := by
    simp [CircuitBreaker.enter, hstate]
  rw [step_eq_some]
  exact ⟨hclock, by simp [act, hfree, henter, admission, hstate]⟩

/-- The reset timeout is never written. -/
theorem step_resetTimeout {s s' : Calls} {e : Event} (h : s.step e = some s') :
    s'.breaker.resetTimeout = s.breaker.resetTimeout := by
  cases e with
  | enter call now =>
      obtain ⟨-, -, ⟨-, rfl⟩ | ⟨b, hb, rfl⟩⟩ := step_enter h
      · rfl
      · obtain ⟨-, rfl⟩ | ⟨-, -, rfl⟩ := CircuitBreaker.enter_eq_some hb <;> rfl
  | succeed call now =>
      obtain ⟨-, -, rfl⟩ := step_succeed h
      rfl
  | fail call now =>
      obtain ⟨-, -, rfl⟩ := step_fail h
      simp
  | drop call now =>
      obtain ⟨-, -, rfl⟩ := step_drop h
      rfl

/-- The clock of a state is the time of the step that reached it. -/
theorem step_clock {s s' : Calls} {e : Event} (h : s.step e = some s') :
    s.clock ≤ e.time ∧ s'.clock = e.time := by
  cases e with
  | enter call now =>
      obtain ⟨hle, -, ⟨-, rfl⟩ | ⟨b, -, rfl⟩⟩ := step_enter h <;> exact ⟨hle, rfl⟩
  | succeed call now =>
      obtain ⟨hle, -, rfl⟩ := step_succeed h
      exact ⟨hle, rfl⟩
  | fail call now =>
      obtain ⟨hle, -, rfl⟩ := step_fail h
      exact ⟨hle, rfl⟩
  | drop call now =>
      obtain ⟨hle, -, rfl⟩ := step_drop h
      exact ⟨hle, rfl⟩

end Calls

end TopdeskMcp
