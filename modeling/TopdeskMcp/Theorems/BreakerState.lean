import TopdeskMcp.Core.CircuitBreaker

/-!
# The state of the circuit breaker

What the guarded state says of the steps before it, for calls that overlap in any way and may
be dropped: the counter is the number of failures since the last success, and the breaker is
closed as long as they are fewer than the threshold. `Consistent` is the invariant; the steps
before a state enter it only through that number, which `recorded` carries along the run.
-/

namespace TopdeskMcp.Theorems.BreakerState

open TopdeskMcp Calls

/-- The failures since the last success, after one more step. -/
def record (count : Nat) : Event → Nat
  | .fail _ _ => count + 1
  | .succeed _ _ => 0
  | _ => count

/-- The failures recorded since the last recorded success. -/
def recorded (es : List Event) : Nat := es.foldl record 0

def isFailure : Event → Bool
  | .fail _ _ => true
  | _ => false

/-- All failures of a run. -/
def failures (es : List Event) : Nat := es.countP isFailure

/-- The state of a breaker after so many failures in a row. An opening is never later than the
time of the state. -/
structure Consistent (threshold : UInt32) (timeout count : Nat) (s : Calls) : Prop where
  failureThreshold : s.breaker.failureThreshold = threshold
  resetTimeout : s.breaker.resetTimeout = timeout
  failureCount : s.breaker.inner.failureCount.toNat = count
  closed_iff : s.breaker.inner.state = .closed ↔ count < max 1 threshold.toNat
  openedAt : s.breaker.inner.state ≠ .closed →
    ∃ t, s.breaker.inner.openedAt = some t ∧ t ≤ s.clock

/-- An open breaker knows since when, and from the reset timeout on it admits every new call. -/
def Reopens (timeout : Nat) (s : Calls) : Prop :=
  s.breaker.inner.state = .opened → ∃ t, s.breaker.inner.openedAt = some t ∧
    (∀ now, s.breaker.elapsed now = now - t) ∧
    ∀ call now, s.inFlight call = none → s.clock ≤ now → t + timeout ≤ now →
      ∃ s', s.step (.enter call now) = some s' ∧ s'.inFlight call = some .trial ∧
        s'.breaker.inner.state = .halfOpen

variable {threshold : UInt32} {timeout count : Nat} {s s' : Calls} {e : Event}

theorem consistent_initial (threshold : UInt32) (timeout clock : Nat) :
    Consistent threshold timeout 0 (.initial threshold timeout clock) where
  failureThreshold := rfl
  resetTimeout := rfl
  failureCount := rfl
  closed_iff := by
    constructor
    · intro _
      omega
    · intro _
      rfl
  openedAt h := absurd rfl h

/-- A breaker that is not closed has had enough failures. -/
theorem Consistent.le_count (h : Consistent threshold timeout count s)
    (hopen : s.breaker.inner.state ≠ .closed) : max 1 threshold.toNat ≤ count := by
  have hnot : ¬ count < max 1 threshold.toNat := h.closed_iff.not.mp hopen
  omega

/-- A step that leaves the breaker alone. -/
theorem Consistent.wait (h : Consistent threshold timeout count s)
    (hbreaker : s'.breaker = s.breaker) (hclock : s.clock ≤ s'.clock) :
    Consistent threshold timeout count s' := by
  constructor <;> rw [hbreaker]
  · exact h.failureThreshold
  · exact h.resetTimeout
  · exact h.failureCount
  · exact h.closed_iff
  · intro hopen
    obtain ⟨t, ht, hle⟩ := h.openedAt hopen
    exact ⟨t, ht, Nat.le_trans hle hclock⟩

/-- An admission may move an open breaker to half-open and does nothing else to it. -/
theorem Consistent.enter (h : Consistent threshold timeout count s) {call now : Nat}
    (hstep : s.step (.enter call now) = some s') : Consistent threshold timeout count s' := by
  obtain ⟨hclock, -, ⟨-, rfl⟩ | ⟨b, hb, rfl⟩⟩ := step_enter hstep
  · exact h.wait rfl hclock
  · obtain ⟨-, rfl⟩ | ⟨hopened, -, rfl⟩ := CircuitBreaker.enter_eq_some hb
    · exact h.wait rfl hclock
    · have hopen : s.breaker.inner.state ≠ .closed := by
        rw [hopened]
        simp
      refine ⟨h.failureThreshold, h.resetTimeout, h.failureCount, ?_, ?_⟩
      · constructor
        · intro hclosed
          simp at hclosed
        · intro hlt
          have hle := h.le_count hopen
          omega
      · intro _
        obtain ⟨t, ht, hle⟩ := h.openedAt hopen
        exact ⟨t, ht, Nat.le_trans hle hclock⟩

theorem Consistent.succeed (h : Consistent threshold timeout count s) {call now : Nat}
    (hstep : s.step (.succeed call now) = some s') : Consistent threshold timeout 0 s' := by
  obtain ⟨-, -, rfl⟩ := step_succeed hstep
  refine ⟨h.failureThreshold, h.resetTimeout, rfl, ?_, ?_⟩
  · constructor
    · intro _
      omega
    · intro _
      rfl
  · intro hopen
    exact absurd rfl hopen

/-- The counter as it is after one more failure. -/
theorem Consistent.counted (h : Consistent threshold timeout count s)
    (hbound : count + 1 < UInt32.size) :
    (s.breaker.inner.failureCount + 1).toNat = count + 1 := by
  rw [UInt32.toNat_add, h.failureCount]
  exact Nat.mod_eq_of_lt hbound

/-- A failure opens the breaker exactly when there are enough of them: a breaker that is
half-open has had enough before. -/
theorem Consistent.opens_iff (h : Consistent threshold timeout count s)
    (hbound : count + 1 < UInt32.size) :
    s.breaker.Opens ↔ max 1 threshold.toNat ≤ count + 1 := by
  unfold CircuitBreaker.Opens
  rw [UInt32.le_iff_toNat_le, h.counted hbound, h.failureThreshold]
  constructor
  · intro hopens
    cases hopens with
    | inl hhalf =>
        have hle := h.le_count (by rw [hhalf]; simp)
        omega
    | inr hle => omega
  · intro hle
    right
    omega

theorem Consistent.fail (h : Consistent threshold timeout count s) {call now : Nat}
    (hbound : count + 1 < UInt32.size) (hstep : s.step (.fail call now) = some s') :
    Consistent threshold timeout (count + 1) s' := by
  obtain ⟨-, -, rfl⟩ := step_fail hstep
  have hcount := h.counted hbound
  by_cases hopens : s.breaker.Opens
  · have hinner := CircuitBreaker.onFailure_of_opens hopens now
    refine ⟨?_, ?_, ?_, ?_, ?_⟩
    · simpa using h.failureThreshold
    · simpa using h.resetTimeout
    · rw [hinner]
      exact hcount
    · rw [hinner]
      constructor
      · intro hclosed
        simp at hclosed
      · intro hlt
        have hle := (h.opens_iff hbound).mp hopens
        omega
    · intro _
      rw [hinner]
      exact ⟨now, rfl, Nat.le_refl now⟩
  · have hinner := CircuitBreaker.onFailure_of_not_opens hopens now
    have hlt : count + 1 < max 1 threshold.toNat := by
      have hnot := (h.opens_iff hbound).not.mp hopens
      omega
    have hclosed : s.breaker.inner.state = .closed := h.closed_iff.mpr (by omega)
    refine ⟨?_, ?_, ?_, ?_, ?_⟩
    · simpa using h.failureThreshold
    · simpa using h.resetTimeout
    · rw [hinner]
      exact hcount
    · rw [hinner]
      exact ⟨fun _ => hlt, fun _ => hclosed⟩
    · intro hopen
      rw [hinner] at hopen
      exact absurd hclosed hopen

/-- Every step keeps the state consistent with the failures it records. -/
theorem Consistent.step (h : Consistent threshold timeout count s)
    (hbound : record count e < UInt32.size) (hstep : s.step e = some s') :
    Consistent threshold timeout (record count e) s' := by
  cases e with
  | enter call now => exact h.enter hstep
  | succeed call now => exact h.succeed hstep
  | fail call now => exact h.fail hbound hstep
  | drop call now =>
      obtain ⟨hclock, -, rfl⟩ := step_drop hstep
      exact h.wait rfl hclock

theorem record_le (count : Nat) (e : Event) :
    record count e ≤ count + (if isFailure e then 1 else 0) := by
  cases e <;> simp [record, isFailure]

/-- A run of steps, by induction on the steps; the failures that are left are within the bound. -/
theorem Consistent.run {es : List Event} (h : Consistent threshold timeout count s)
    (hbound : count + failures es < UInt32.size)
    (hrun : (calls threshold timeout).run s es = some s') :
    Consistent threshold timeout (es.foldl record count) s' := by
  induction es generalizing s count with
  | nil =>
      obtain rfl : s = s' := by simpa using hrun
      exact h
  | cons e es ih =>
      obtain ⟨t, ht, hrest⟩ := Trace.Lts.run_cons_eq_some.mp hrun
      have hle := record_le count e
      have hfailures : failures (e :: es) = failures es + (if isFailure e then 1 else 0) :=
        List.countP_cons
      have hnext : record count e + failures es < UInt32.size := by omega
      exact ih (h.step (by omega) ht) hnext hrest

theorem Consistent.reopens (h : Consistent threshold timeout count s) : Reopens timeout s := by
  intro hopen
  obtain ⟨t, ht, hle⟩ := h.openedAt (by rw [hopen]; simp)
  have helapsed : ∀ now, s.breaker.elapsed now = now - t := by
    intro now
    simp only [CircuitBreaker.elapsed, ht]
  refine ⟨t, ht, helapsed, ?_⟩
  intro call now hfree hclock hover
  have henter : s.breaker.enter now =
      some { s.breaker with inner := { s.breaker.inner with state := .halfOpen } } := by
    unfold CircuitBreaker.enter
    rw [if_pos hopen, if_neg]
    rw [helapsed, h.resetTimeout]
    omega
  refine ⟨{ breaker := { s.breaker with inner := { s.breaker.inner with state := .halfOpen } },
            inFlight := Function.update s.inFlight call (some s.admission), clock := now },
    step_eq_some.mpr ⟨hclock, ?_⟩, ?_, rfl⟩
  · simp [act, hfree, henter]
  · simp [admission, hopen]

/-- **The state of the breaker.** After any interleaving of calls with fewer failures than a `u32`
counts, the counter is the number of failures since the last success, the breaker is closed if
and only if they are fewer than the threshold (and than one), and one that is not closed has its
opening time, so that an open one lets a call through once the reset timeout has passed. -/
theorem breaker_state (threshold : UInt32) (timeout clock : Nat) (es : List Event) (s : Calls)
    (hrun : (calls threshold timeout).run (.initial threshold timeout clock) es = some s)
    (hbound : failures es < UInt32.size) :
    s.breaker.inner.failureCount.toNat = recorded es ∧
    (s.breaker.inner.state = .closed ↔
      s.breaker.inner.failureCount.toNat < max 1 threshold.toNat) ∧
    (s.breaker.inner.state ≠ .closed → s.breaker.inner.openedAt.isSome) ∧
    Reopens timeout s := by
  have hsize : 0 + failures es < UInt32.size := by
    rw [Nat.zero_add]
    exact hbound
  have h := (consistent_initial threshold timeout clock).run hsize hrun
  refine ⟨h.failureCount, ?_, ?_, h.reopens⟩
  · rw [h.failureCount]
    exact h.closed_iff
  · intro hopen
    obtain ⟨t, ht, -⟩ := h.openedAt hopen
    rw [ht]
    rfl

/-- Three overlapping calls at threshold two: two failures open the breaker, the third call is
dropped. -/
theorem breaker_state_overlapping : ∃ s,
    (calls 2 10).run (.initial 2 10 0)
      [.enter 0 0, .enter 1 0, .enter 2 1, .fail 0 2, .fail 1 3, .drop 2 4] = some s ∧
    s.breaker.inner.failureCount.toNat = 2 ∧ s.breaker.inner.state = .opened ∧
    ∃ s', s.step (.enter 3 13) = some s' ∧ s'.inFlight 3 = some .trial := by
  have hrun : (calls 2 10).run (.initial 2 10 0)
      [.enter 0 0, .enter 1 0, .enter 2 1, .fail 0 2, .fail 1 3, .drop 2 4] = some _ := rfl
  obtain ⟨hcount, -, -, hreopens⟩ := breaker_state 2 10 0 _ _ hrun (by decide)
  obtain ⟨t, ht, -, hadmits⟩ := hreopens rfl
  obtain rfl : 3 = t := Option.some.inj ht
  obtain ⟨s', hstep, htrial, -⟩ := hadmits 3 13 rfl (by decide) (by decide)
  exact ⟨_, rfl, hcount, rfl, s', hstep, htrial⟩

end TopdeskMcp.Theorems.BreakerState
