import TopdeskMcp.Core.RateLimiter
import Mathlib.Data.List.Basic
import Mathlib.Tactic.Common

/-!
# The rate limiter over whole runs

Two promises of the sliding window, over runs of any length:

* **exactness** — called one at a time, the limiter decides by the whole history
  of grants, although it keeps a pruned one, and never keeps more than `limit`
  entries;
* **windows** — however calls interleave, any `limit + 1` grants hold two that
  are a window apart. The clock is read before the lock is taken, so a later
  reading can prune entries that an earlier one, still waiting, shares a window
  with. The promise holds as long as that does not happen (`NotPruned`): no call
  gets the lock after one that was a window later than a grant that still counts
  for it.
-/

namespace TopdeskMcp.Theorems.Limiter

open TopdeskMcp Trace

/-! ## One call at a time -/

/-- The limiter decides by all the grants there have been. -/
def Exact (limit window : Nat) (s : Limited) : Prop :=
  ∀ now, s.clock ≤ now →
    ((s.limiter.acquire now).1 = .ok () ↔ (recent window now s.grants).length < limit)

/-- A limiter that stands for the whole history of its grants. -/
structure Kept (limit window : Nat) (s : Limited) : Prop where
  limit_eq : s.limiter.limit = limit
  window_eq : s.limiter.window = window
  tracks : s.limiter.Tracks s.grants s.clock
  length : s.limiter.timestamps.length ≤ limit

theorem kept_initial (limit window clock : Nat) :
    Kept limit window (.initial limit window clock) where
  limit_eq := rfl
  window_eq := rfl
  tracks _ _ := rfl
  length := Nat.zero_le _

/-- What a call that has been judged by the history is recorded as. -/
theorem record_of_tracks {r : RateLimiter} {history : List Nat} {clock now : Nat}
    (h : r.Tracks history clock) (hnow : clock ≤ now) : record history now (r.acquire now).1 =
      if r.limit ≤ (recent r.window now history).length then history else history ++ [now] := by
  rw [RateLimiter.acquire_eq h hnow]
  by_cases hle : r.limit ≤ (recent r.window now history).length
  · rw [if_pos hle, if_pos hle]
    rfl
  · rw [if_neg hle, if_neg hle]
    rfl

theorem kept_inductive (limit window : Nat) :
    (acquires limit window).Inductive (fun _ _ => True) (Kept limit window) := by
  intro s now s' hI _ h
  obtain ⟨hclock, rfl⟩ := Limited.step_eq_some.mp h
  obtain ⟨hlimit, hwindow⟩ := s.limiter.acquire_limit now
  refine ⟨hlimit.trans hI.limit_eq, hwindow.trans hI.window_eq, ?_, ?_⟩
  · rw [record_of_tracks hI.tracks hclock]
    exact hI.tracks.acquire hclock
  · have hlength := RateLimiter.length_timestamps_acquire (hI.limit_eq ▸ hI.length) now
    rwa [hI.limit_eq] at hlength

theorem Kept.exact {limit window : Nat} {s : Limited} (h : Kept limit window s) :
    Exact limit window s := by
  intro now hnow
  rw [RateLimiter.acquire_eq h.tracks hnow, h.limit_eq, h.window_eq]
  split <;> simp <;> omega

/-- **Exactness.** After any sequence of calls made one at a time, the next call succeeds
if and only if fewer than `limit` grants of the whole history are less than a window old,
and the list holds no more than `limit` entries. -/
theorem acquire_exact (limit window clock : Nat) (calls : List Nat) (s : Limited)
    (hrun : (acquires limit window).run (.initial limit window clock) calls = some s) :
    Exact limit window s ∧ s.limiter.timestamps.length ≤ limit := by
  have hkept := (kept_inductive limit window).reach (kept_initial limit window clock) hrun
  exact ⟨hkept.exact, hkept.length⟩

/-- Two calls at 0 and 5 with a limit of two: the next one is rejected at 9, and granted
at 10, when the first is a window old. -/
theorem acquire_exact_boundary : ∃ s, (acquires 2 10).run (.initial 2 10 0) [0, 5, 9] = some s ∧
    Exact 2 10 s ∧ (s.limiter.acquire 9).1 = .error .rateLimitExceeded ∧
    (s.limiter.acquire 10).1 = .ok () :=
  ⟨_, rfl, (acquire_exact 2 10 0 [0, 5, 9] _ rfl).1, rfl, rfl⟩

/-! ## Any interleaving -/

/-- The calls of a window-long span that starts at `t`. -/
def span (window t : Nat) (times : List Nat) : List Nat :=
  times.filter fun s => t ≤ s ∧ s < t + window

theorem mem_span {window t s : Nat} {times : List Nat} :
    s ∈ span window t times ↔ s ∈ times ∧ t ≤ s ∧ s < t + window := by
  simp [span]

/-- Any `limit + 1` calls hold two that are at least a window apart. -/
def Spread (limit window : Nat) (times : List Nat) : Prop :=
  ∀ calls : List Nat, calls.Sublist times → calls.length = limit + 1 →
    ∃ s ∈ calls, ∃ t ∈ calls, s + window ≤ t

/-- Calls are spread if and only if no window-long span holds more than `limit`. -/
theorem spread_iff {limit window : Nat} {times : List Nat} :
    Spread limit window times ↔ ∀ t, (span window t times).length ≤ limit := by
  constructor
  · intro h t
    by_contra hlt
    -- `limit + 1` calls of one span are less than a window apart
    have hsub : ((span window t times).take (limit + 1)).Sublist (span window t times) :=
      List.take_sublist ..
    obtain ⟨s, hs, u, hu, hle⟩ := h _ (hsub.trans List.filter_sublist)
      (by rw [List.length_take]; omega)
    obtain ⟨-, hs⟩ := mem_span.mp (hsub.subset hs)
    obtain ⟨-, hu⟩ := mem_span.mp (hsub.subset hu)
    omega
  · intro h calls hcalls hlength
    by_contra hnone
    push Not at hnone
    -- calls less than a window apart are all in the span of the earliest
    obtain ⟨first, hfirst, hmin⟩ : ∃ first ∈ calls, ∀ t ∈ calls, first ≤ t := by
      have hne : calls ≠ [] := by
        rintro rfl
        simp at hlength
      exact ⟨calls.min hne, List.min_mem hne, fun t ht => List.min_le_of_mem ht⟩
    have hall : span window first calls = calls := by
      refine List.filter_eq_self.mpr fun t ht => decide_eq_true ⟨hmin t ht, ?_⟩
      exact hnone first hfirst t ht
    have hle := (hcalls.filter fun s => first ≤ s ∧ s < first + window).length_le
    have hspan := h first
    unfold span at hall hspan
    rw [hall] at hle
    omega

theorem span_append (window t : Nat) (times times' : List Nat) :
    span window t (times ++ times') = span window t times ++ span window t times' :=
  List.filter_append ..

/-- The limit and the window are never written. -/
def SameLimits (limit window : Nat) (s : Contended) : Prop :=
  s.limiter.limit = limit ∧ s.limiter.window = window

theorem sameLimits_inductive (limit window : Nat) :
    (contended limit window).Inductive (fun _ _ => True) (SameLimits limit window) := by
  intro s e s' hI _ h
  cases e with
  | read call now =>
      rw [Contended.step_read h]
      exact hI
  | lock call =>
      obtain ⟨now, -, rfl⟩ := Contended.step_lock h
      obtain ⟨hlimit, hwindow⟩ := s.limiter.acquire_limit now
      exact ⟨hlimit.trans hI.1, hwindow.trans hI.2⟩

/-! ### What has been pruned -/

/-- The grants that no call after them, in the order of the lock, was a window later than. -/
def unpruned (window : Nat) : List Judged → List Nat
  | [] => []
  | call :: calls =>
      if call.granted ∧ ∀ later ∈ calls, later.reading - call.reading < window then
        call.reading :: unpruned window calls
      else unpruned window calls

/-- One more call prunes by its own reading, and adds itself. -/
theorem unpruned_concat (window : Nat) (calls : List Judged) (last : Judged) :
    unpruned window (calls ++ [last]) =
      recent window last.reading (unpruned window calls) ++ granted [last] := by
  induction calls with
  | nil => cases h : last.granted <;> simp [unpruned, granted, recent, h]
  | cons call calls ih =>
      have hlast : (∀ later ∈ calls ++ [last], later.reading - call.reading < window) ↔
          (∀ later ∈ calls, later.reading - call.reading < window) ∧
            last.reading - call.reading < window := by
        simp only [List.mem_append, List.mem_singleton, or_imp, forall_and, forall_eq]
      rw [List.cons_append, unpruned, unpruned, ih]
      simp only [hlast]
      by_cases hkept : call.granted = true ∧
          ∀ later ∈ calls, later.reading - call.reading < window
      · by_cases hin : last.reading - call.reading < window
        · rw [if_pos ⟨hkept.1, hkept.2, hin⟩, if_pos hkept, recent_cons, if_pos hin,
            List.cons_append]
        · rw [if_neg fun h => hin h.2.2, if_pos hkept, recent_cons, if_neg hin]
      · rw [if_neg fun h => hkept ⟨h.1, h.2.1⟩, if_neg hkept]

theorem unpruned_sublist (window : Nat) (calls : List Judged) :
    (unpruned window calls).Sublist (granted calls) := by
  induction calls with
  | nil => exact .slnil
  | cons call calls ih =>
      rw [unpruned, granted_cons]
      by_cases hgranted : call.granted = true
      · rw [if_pos hgranted]
        split
        · exact ih.cons_cons _
        · exact ih.cons _
      · rw [if_neg fun h => hgranted h.1, if_neg hgranted]
        exact ih

/-- The list of a limiter is what the calls so far have not pruned. -/
theorem timestamps_inductive (limit window : Nat) :
    (contended limit window).Inductive (fun _ _ => True) fun s =>
      SameLimits limit window s ∧ s.limiter.timestamps = unpruned window s.judged := by
  intro s e s' hI _ h
  refine ⟨sameLimits_inductive limit window s e s' hI.1 trivial h, ?_⟩
  obtain ⟨⟨-, hwindow⟩, htimestamps⟩ := hI
  cases e with
  | read call now =>
      rw [Contended.step_read h]
      exact htimestamps
  | lock call =>
      obtain ⟨now, -, rfl⟩ := Contended.step_lock h
      dsimp only
      rw [unpruned_concat, ← htimestamps, ← hwindow]
      unfold RateLimiter.acquire
      dsimp only
      split <;> simp [granted, Except.isOk, Except.toBool]

/-- No call since a grant that counts for this reading was a window later than the grant. -/
def NotPruned (window : Nat) (s : Contended) : Contended.Event → Prop
  | .lock call => ∀ now, s.readings call = some now → s.judged.Pairwise fun grant later =>
      grant.granted = true → now - grant.reading < window →
        later.reading - grant.reading < window
  | .read _ _ => True

/-- Nothing that counts for a reading has been pruned exactly when all grants that do are left. -/
theorem recent_unpruned_iff {window now : Nat} {calls : List Judged} :
    recent window now (unpruned window calls) = recent window now (granted calls) ↔
      calls.Pairwise fun grant later => grant.granted = true → now - grant.reading < window →
        later.reading - grant.reading < window := by
  induction calls with
  | nil => simp [unpruned, granted]
  | cons call calls ih =>
      rw [List.pairwise_cons, ← ih, unpruned, granted_cons]
      by_cases hcounts : call.granted = true ∧ now - call.reading < window
      · obtain ⟨hgranted, hin⟩ := hcounts
        by_cases hkept : ∀ later ∈ calls, later.reading - call.reading < window
        · rw [if_pos ⟨hgranted, hkept⟩, if_pos hgranted, recent_cons, recent_cons, if_pos hin,
            if_pos hin, List.cons_inj_right]
          exact (and_iff_right fun later hlater _ _ => hkept later hlater).symm
        · -- the call itself is missing
          rw [if_neg fun h => hkept h.2, if_pos hgranted, recent_cons, if_pos hin]
          have hle : (recent window now (unpruned window calls)).length ≤
              (recent window now (granted calls)).length :=
            ((unpruned_sublist window calls).filter _).length_le
          constructor
          · intro heq
            have hlength := congrArg List.length heq
            rw [List.length_cons] at hlength
            omega
          · exact fun h => absurd (fun later hlater => h.1 later hlater hgranted hin) hkept
      · have hfree : ∀ later ∈ calls, call.granted = true → now - call.reading < window →
            later.reading - call.reading < window :=
          fun _ _ hgranted hin => absurd ⟨hgranted, hin⟩ hcounts
        rw [and_iff_right hfree]
        -- a call that is no grant, or is none that counts, is on neither side
        by_cases hgranted : call.granted = true
        · have hout : ¬ now - call.reading < window := fun hin => hcounts ⟨hgranted, hin⟩
          rw [if_pos hgranted, recent_cons, if_neg hout]
          split
          · rw [recent_cons, if_neg hout]
          · rfl
        · rw [if_neg fun h => hgranted h.1, if_neg hgranted]

/-! ### Windows -/

/-- A call that shares a window-long span with a reading counts for it. -/
theorem length_span_le {window t now : Nat} (hto : now < t + window)
    (times : List Nat) : (span window t times).length ≤ (recent window now times).length := by
  refine (List.monotone_filter_right times fun s hs => ?_).length_le
  simp only [decide_eq_true_eq] at hs ⊢
  omega

/-- A call that is judged by all the grants that count for it keeps them spread. -/
theorem Spread.record {limit window now : Nat} {r : RateLimiter} {grants : List Nat}
    (h : Spread limit window grants) (hlimit : r.limit = limit) (hwindow : r.window = window)
    (hcounts : recent window now r.timestamps = recent window now grants) :
    Spread limit window (record grants now (r.acquire now).1) := by
  have hgranted := r.acquire_isOk now
  rw [hlimit, hwindow, hcounts] at hgranted
  unfold TopdeskMcp.record
  rw [hgranted]
  by_cases hle : limit ≤ (recent window now grants).length
  · simpa [hle] using h
  · rw [if_pos (by simpa using hle), spread_iff]
    intro t
    have hbefore := spread_iff.mp h t
    rw [span_append, List.length_append]
    -- only the spans around the reading gain a call
    by_cases hin : t ≤ now ∧ now < t + window
    · have hroom := length_span_le hin.2 grants
      have hone : (span window t [now]).length ≤ 1 := List.length_filter_le ..
      omega
    · have hnone : span window t [now] = [] := by simp [span, hin]
      rw [hnone]
      exact hbefore

theorem spread_nil (limit window : Nat) : Spread limit window [] := by
  intro calls hcalls hlength
  rw [List.sublist_nil.mp hcalls] at hlength
  simp at hlength

/-- A limiter whose list is what is not pruned, with grants that are spread. -/
structure Windowed (limit window : Nat) (s : Contended) : Prop where
  same : SameLimits limit window s
  timestamps : s.limiter.timestamps = unpruned window s.judged
  spread : Spread limit window s.grants

theorem windowed_inductive (limit window : Nat) :
    (contended limit window).Inductive (NotPruned window) (Windowed limit window) := by
  intro s e s' hI hC h
  obtain ⟨hsame, htimestamps⟩ :=
    timestamps_inductive limit window s e s' ⟨hI.same, hI.timestamps⟩ trivial h
  refine ⟨hsame, htimestamps, ?_⟩
  cases e with
  | read call now =>
      rw [Contended.step_read h]
      exact hI.spread
  | lock call =>
      obtain ⟨now, hnow, rfl⟩ := Contended.step_lock h
      show Spread limit window (granted (s.judged ++ [_]))
      rw [granted_concat]
      refine hI.spread.record hI.same.1 hI.same.2 ?_
      rw [hI.timestamps]
      exact recent_unpruned_iff.mpr (hC now hnow)

/-- **Windows.** In every interleaving in which no call is judged after a grant that counts for
it was pruned, any `limit + 1` grants hold two that are at least a window apart. The condition is
exact for the step: a call that gets the lock finds all the grants that count for it if and only
if none of them was pruned. -/
theorem spread_of_notPruned (limit window clock : Nat) (es : List Contended.Event)
    (s : Contended)
    (hrun : (contended limit window).run (.initial limit window clock) es = some s) :
    ((contended limit window).Along (NotPruned window) (.initial limit window clock) es →
      Spread limit window s.grants) ∧
    ∀ call now, s.readings call = some now → (NotPruned window s (.lock call) ↔
      recent window now s.limiter.timestamps = recent window now s.grants) := by
  constructor
  · intro halong
    have hstart : Windowed limit window (.initial limit window clock) :=
      ⟨⟨rfl, rfl⟩, rfl, spread_nil limit window⟩
    exact ((windowed_inductive limit window).run hstart halong hrun).spread
  · intro call now hnow
    obtain ⟨-, htimestamps⟩ := (timestamps_inductive limit window).reach ⟨⟨rfl, rfl⟩, rfl⟩ hrun
    simp only [NotPruned, hnow, Option.some.injEq, forall_eq', htimestamps]
    exact recent_unpruned_iff.symm

/-- Three grants of a limit of two within six time units, with a window of ten: the call that has
read 6 is rejected, but a reading at 11 prunes the grants at 0 and 1 before the call that has read
5 is judged. -/
theorem spread_fails : ∃ s, (contended 2 10).run (.initial 2 10 0)
      [.read 0 0, .lock 0, .read 1 1, .lock 1, .read 2 5, .read 3 6, .lock 3, .read 4 11, .lock 4,
        .lock 2] = some s ∧
    s.grants = [0, 1, 11, 5] ∧ ¬ Spread 2 10 s.grants := by
  refine ⟨_, rfl, rfl, fun h => ?_⟩
  have hthree := spread_iff.mp h 0
  exact absurd hthree (by decide)

/-- A call that is overtaken by less than a window: the one that has read 5 is judged after the
one that has read 8, but by the grant at 0 as well. -/
theorem spread_of_notPruned_overtaken : ∃ s, (contended 2 10).run (.initial 2 10 0)
      [.read 0 0, .lock 0, .read 1 5, .read 2 8, .lock 2, .lock 1] = some s ∧
    s.grants = [0, 8] ∧ Spread 2 10 s.grants := by
  have hrun : (contended 2 10).run (.initial 2 10 0)
      [.read 0 0, .lock 0, .read 1 5, .read 2 8, .lock 2, .lock 1] = some _ := rfl
  refine ⟨_, hrun, rfl, (spread_of_notPruned 2 10 0 _ _ hrun).1 ?_⟩
  refine .cons trivial rfl (.cons ?_ rfl (.cons trivial rfl (.cons trivial rfl
    (.cons ?_ rfl (.cons ?_ rfl Lts.along_nil)))))
  all_goals
    intro now hnow
    obtain rfl := Option.some.inj hnow
    decide

/-- What was pruned does no harm as long as enough later grants are left, so that `NotPruned` is
not needed for the grants to be spread: with a limit of one the call that has read 5 finds the
grant at 11. -/
theorem spread_pruned : ∃ s, (contended 1 10).run (.initial 1 10 0)
      [.read 0 0, .lock 0, .read 1 5, .read 2 11, .lock 2, .lock 1] = some s ∧
    Spread 1 10 s.grants ∧ ¬ (contended 1 10).Along (NotPruned 10) (.initial 1 10 0)
      [.read 0 0, .lock 0, .read 1 5, .read 2 11, .lock 2, .lock 1] := by
  refine ⟨_, rfl, spread_iff.mpr fun t => ?_, fun h => ?_⟩
  · change (span 10 t [0, 11]).length ≤ 1
    simp only [span, List.filter_cons, List.filter_nil, decide_eq_true_eq]
    -- no span of ten holds both grants
    split
    · rw [if_neg (by omega)]
      simp
    · split <;> simp
  · have hlast := ((((h.tail rfl).tail rfl).tail rfl).tail rfl).tail rfl
    exact absurd (hlast.head rfl 5 rfl) (by decide)

end TopdeskMcp.Theorems.Limiter
