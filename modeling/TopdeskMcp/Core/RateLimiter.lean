import TopdeskMcp.Core.Errors
import TopdeskMcp.Lib.Trace

/-!
# The rate limiter (`core/rate_limiter.rs`)

`acquire` forgets the calls that have left the window and grants the next one
while fewer than `limit` are left. It reads the clock before it takes the lock;
`RateLimiter.acquire` is the locked section, and its argument the reading.

* `acquires` is any sequence of calls made one at a time;
* `contended` is any interleaving of calls, each a reading and then a locked section.

What a limiter remembers:

* `recent` is the part of a history that still counts; forgetting the rest early
  makes no difference later (`recent_recent`);
* a history in which every call found fewer than `limit` recent ones has no more
  than `limit` in any window (`window_bound`);
* so a limiter decides as if it remembered every grant (`RateLimiter.acquire_eq`).
-/

namespace TopdeskMcp

structure RateLimiter where
  limit : Nat
  window : Nat
  timestamps : List Nat
  deriving DecidableEq, Repr

/-- The times less than a window before `now`; `duration_since` saturates at zero. -/
def recent (window now : Nat) (times : List Nat) : List Nat :=
  times.filter fun t => now - t < window

namespace RateLimiter

def new (limit window : Nat) : RateLimiter := { limit, window, timestamps := [] }

/-- `RateLimitExceeded` leaves the pruned history behind. -/
def acquire (r : RateLimiter) (now : Nat) : Except McpifyError Unit × RateLimiter :=
  let timestamps := recent r.window now r.timestamps
  if r.limit ≤ timestamps.length then (.error .rateLimitExceeded, { r with timestamps })
  else (.ok (), { r with timestamps := timestamps ++ [now] })

end RateLimiter

/-! ## Sequences and interleavings of calls -/

/-- The readings of the granted calls, in the order of their locked sections. -/
def record (grants : List Nat) (now : Nat) (acquired : Except McpifyError Unit) : List Nat :=
  if acquired.isOk then grants ++ [now] else grants

/-- A limiter, every grant it has made, and the time of the last call. -/
structure Limited where
  limiter : RateLimiter
  grants : List Nat
  clock : Nat

namespace Limited

def initial (limit window clock : Nat) : Limited where
  limiter := .new limit window
  grants := []
  clock := clock

/-- A call at `now`, which is no earlier than the last one. -/
def step (s : Limited) (now : Nat) : Option Limited :=
  if s.clock ≤ now then
    let acquired := s.limiter.acquire now
    some { limiter := acquired.2, grants := record s.grants now acquired.1, clock := now }
  else none

theorem step_eq_some {s s' : Limited} {now : Nat} : s.step now = some s' ↔
    s.clock ≤ now ∧ s' = { limiter := (s.limiter.acquire now).2,
                           grants := record s.grants now (s.limiter.acquire now).1,
                           clock := now } := by
  rw [step, Option.ite_none_right_eq_some, Option.some.injEq, eq_comm]

end Limited

/-- Calls made one at a time. -/
def acquires (limit window : Nat) : Trace.Lts Limited Nat where
  init s := ∃ clock, s = .initial limit window clock
  step := Limited.step

/-- A call that has had the lock: its reading of the clock, and whether it was granted. -/
structure Judged where
  reading : Nat
  granted : Bool

/-- The readings of the granted ones. -/
def granted (calls : List Judged) : List Nat :=
  (calls.filter Judged.granted).map Judged.reading

theorem granted_cons (call : Judged) (calls : List Judged) : granted (call :: calls) =
    if call.granted then call.reading :: granted calls else granted calls := by
  unfold granted
  rw [List.filter_cons]
  split <;> rfl

theorem granted_concat (calls : List Judged) (now : Nat) (acquired : Except McpifyError Unit) :
    granted (calls ++ [⟨now, acquired.isOk⟩]) = record (granted calls) now acquired := by
  unfold granted record
  rw [List.filter_append, List.map_append]
  cases acquired.isOk <;> simp

/-- A limiter among calls that have read the clock and wait for its lock; `judged` are those
that have had it, in that order. -/
structure Contended where
  limiter : RateLimiter
  readings : Nat → Option Nat
  judged : List Judged
  clock : Nat

namespace Contended

/-- One half of one `acquire`. -/
inductive Event where
  | read (call : Nat) (now : Nat)
  | lock (call : Nat)

def initial (limit window clock : Nat) : Contended where
  limiter := .new limit window
  readings := fun _ => none
  judged := []
  clock := clock

/-- The readings of the granted calls, in the order of their locked sections. -/
def grants (s : Contended) : List Nat := granted s.judged

/-- The clock never goes backwards; the locks come in any order. -/
def step (s : Contended) : Event → Option Contended
  | .read call now =>
      if s.clock ≤ now ∧ s.readings call = none then
        some { s with readings := Function.update s.readings call (some now), clock := now }
      else none
  | .lock call =>
      (s.readings call).map fun now =>
        let acquired := s.limiter.acquire now
        { limiter := acquired.2
          readings := Function.update s.readings call none
          judged := s.judged ++ [⟨now, acquired.1.isOk⟩]
          clock := s.clock }

theorem step_read {s s' : Contended} {call now : Nat} (h : s.step (.read call now) = some s') :
    s' = { s with readings := Function.update s.readings call (some now), clock := now } := by
  simp only [step] at h
  split at h
  · exact (Option.some.inj h).symm
  · simp at h

theorem step_lock {s s' : Contended} {call : Nat} (h : s.step (.lock call) = some s') :
    ∃ now, s.readings call = some now ∧
      s' = { limiter := (s.limiter.acquire now).2,
             readings := Function.update s.readings call none,
             judged := s.judged ++ [⟨now, (s.limiter.acquire now).1.isOk⟩],
             clock := s.clock } := by
  obtain ⟨now, hnow, hs'⟩ := Option.map_eq_some_iff.mp h
  exact ⟨now, hnow, hs'.symm⟩

end Contended

/-- Every interleaving of any number of calls on one fresh limiter. -/
def contended (limit window : Nat) : Trace.Lts Contended Contended.Event where
  init s := ∃ clock, s = .initial limit window clock
  step := Contended.step

/-! ## Histories and windows -/

theorem recent_cons (window now t : Nat) (times : List Nat) : recent window now (t :: times) =
    if now - t < window then t :: recent window now times else recent window now times := by
  unfold recent
  rw [List.filter_cons]
  simp only [decide_eq_true_eq]

theorem recent_append (window now : Nat) (times times' : List Nat) :
    recent window now (times ++ times') = recent window now times ++ recent window now times' :=
  List.filter_append ..

/-- What has left the window stays out of it. -/
theorem recent_recent {window earlier now : Nat} (h : earlier ≤ now) (times : List Nat) :
    recent window now (recent window earlier times) = recent window now times := by
  unfold recent
  rw [List.filter_filter]
  refine List.filter_congr fun t _ => ?_
  simp only [Bool.and_eq_decide, decide_eq_true_eq, decide_eq_decide]
  omega

/-- A history in which every call found fewer than `limit` recent ones, none of them
later than itself. -/
inductive Spaced (limit window : Nat) : List Nat → Prop
  | nil : Spaced limit window []
  | snoc {times : List Nat} {now : Nat} : Spaced limit window times → (∀ t ∈ times, t ≤ now) →
      (recent window now times).length < limit → Spaced limit window (times ++ [now])

/-- In a spaced history no window holds more than `limit` calls. -/
theorem window_bound {limit window : Nat} {times : List Nat} (h : Spaced limit window times)
    (t : Nat) : (times.filter fun s => t ≤ s ∧ s < t + window).length ≤ limit := by
  induction h with
  | nil => simp
  | @snoc times now _ hle hlimit ih =>
      rw [List.filter_append, List.length_append]
      by_cases hnow : t ≤ now ∧ now < t + window
      · -- Whatever shares a window with the last call is recent when it is made.
        have hsub : (times.filter fun s => t ≤ s ∧ s < t + window).length ≤
            (recent window now times).length := by
          refine (List.monotone_filter_right times fun s hs => ?_).length_le
          simp only [decide_eq_true_eq] at hs ⊢
          omega
        have hone : ([now].filter fun s => t ≤ s ∧ s < t + window).length ≤ 1 :=
          List.length_filter_le ..
        omega
      · have hnone : [now].filter (fun s => t ≤ s ∧ s < t + window) = [] := by simp [hnow]
        rw [hnone]
        simpa using ih

namespace RateLimiter

/-- From `clock` on, the limiter's own list counts as the whole history does. -/
def Tracks (r : RateLimiter) (history : List Nat) (clock : Nat) : Prop :=
  ∀ now, clock ≤ now → recent r.window now r.timestamps = recent r.window now history

variable {r : RateLimiter} {history : List Nat} {clock now : Nat}

/-- A call is granted exactly when the whole history holds fewer than `limit` recent
grants. -/
theorem acquire_eq (h : r.Tracks history clock) (hnow : clock ≤ now) :
    (r.acquire now).1 =
      if r.limit ≤ (recent r.window now history).length then .error .rateLimitExceeded
      else .ok () := by
  unfold acquire
  rw [h now hnow]
  dsimp only
  split <;> rfl

theorem acquire_isOk (r : RateLimiter) (now : Nat) :
    (r.acquire now).1.isOk = !decide (r.limit ≤ (recent r.window now r.timestamps).length) := by
  unfold acquire
  dsimp only
  split <;> simp_all [Except.isOk, Except.toBool]

/-- The list never outgrows the limit. -/
theorem length_timestamps_acquire (h : r.timestamps.length ≤ r.limit) (now : Nat) :
    (r.acquire now).2.timestamps.length ≤ r.limit := by
  have hle : (recent r.window now r.timestamps).length ≤ r.timestamps.length :=
    List.length_filter_le ..
  unfold acquire
  dsimp only
  split
  · exact Nat.le_trans hle h
  · rw [List.length_append]
    simp only [List.length_singleton]
    omega

theorem acquire_limit (r : RateLimiter) (now : Nat) :
    (r.acquire now).2.limit = r.limit ∧ (r.acquire now).2.window = r.window := by
  unfold acquire
  dsimp only
  split <;> exact ⟨rfl, rfl⟩

/-- The limiter goes on tracking the history of grants. -/
theorem Tracks.acquire (h : r.Tracks history clock) (hnow : clock ≤ now) :
    (r.acquire now).2.Tracks
      (if r.limit ≤ (recent r.window now history).length then history else history ++ [now])
      now := by
  have hlater : ∀ later, now ≤ later →
      recent r.window later (recent r.window now r.timestamps) = recent r.window later history :=
    fun later hlater => by rw [recent_recent hlater, h later (Nat.le_trans hnow hlater)]
  intro later hle
  unfold RateLimiter.acquire
  rw [h now hnow]
  rw [h now hnow] at hlater
  dsimp only
  split
  · exact hlater later hle
  · dsimp only
    rw [recent_append, recent_append, hlater later hle]

end RateLimiter

end TopdeskMcp
