import TopdeskMcp.Core.HealthCheckManager
import Mathlib.Data.List.Induction

/-!
# The status after a round of checks

The manager keeps all checks that were registered, the registry one state a name. Both flag and
status of a name are those of its last check (`flagOf_after`, `statusOf_reports`), so what the
status misses are the failures of checks that have a later one of their name
(`status_reflects_iff`).
-/

namespace TopdeskMcp.Theorems.Health

inductive Event where
  | register (name : String) (critical : Bool)
  | round (round : Round)

def next (m : HealthCheckManager) : Event → HealthCheckManager
  | .register name critical => m.register name critical
  | .round round => m.runOnce round

/-- The manager after registrations and rounds, in any order. -/
def after (es : List Event) : HealthCheckManager := es.foldl next (.new .new)

def registrations (es : List Event) : List (String × Bool) :=
  es.filterMap fun
    | .register name critical => some (name, critical)
    | .round _ => none

/-- A check as it was registered, and what it came to in a round. -/
structure Checked where
  name : String
  critical : Bool
  outcome : CheckOutcome

def checked (regs : List (String × Bool)) (round : Round) : List Checked :=
  regs.mapIdx fun i reg => { name := reg.1, critical := reg.2, outcome := round.outcome i }

/-- The last check of a name. -/
def last (made : List Checked) (name : String) : Option Checked :=
  made.reverse.find? (·.name == name)

/-- The status that a round calls for. -/
structure Reflects (made : List Checked) (status : ComponentStatus) : Prop where
  unhealthy : status = .unhealthy ↔ ∃ c ∈ made, c.critical ∧ c.outcome ≠ .ok
  degraded : status = .degraded ↔ (¬ ∃ c ∈ made, c.critical ∧ c.outcome ≠ .ok) ∧
    ∃ c ∈ made, ¬ c.critical ∧ c.outcome ≠ .ok
  healthy : status = .healthy ↔ ∀ c ∈ made, c.outcome = .ok

/-- A check that failed comes with one that failed, is the last of its name, and is critical if
the first one is. -/
def Unmasked (made : List Checked) : Prop :=
  ∀ c ∈ made, c.outcome ≠ .ok →
    ∃ c', last made c'.name = some c' ∧ c'.outcome ≠ .ok ∧ (c.critical → c'.critical)

variable {made : List Checked} {regs : List (String × Bool)} {round : Round}
  {r : ComponentRegistry} {name : String}

/-! ## The last check of a name -/

theorem last_concat (made : List Checked) (c : Checked) (name : String) :
    last (made ++ [c]) name = if c.name = name then some c else last made name := by
  unfold last
  rw [List.reverse_concat, List.find?_cons]
  by_cases h : c.name = name
  · rw [if_pos h, beq_iff_eq.mpr h]
  · rw [if_neg h, beq_false_of_ne h]

theorem last_eq_some {c : Checked} (h : last made name = some c) : c ∈ made ∧ c.name = name :=
  ⟨List.mem_reverse.mp (List.mem_of_find?_eq_some h), by simpa using List.find?_some h⟩

theorem isSome_last_iff : (last made name).isSome ↔ name ∈ made.map (·.name) := by
  simp [last, List.find?_isSome]

theorem checked_concat (regs : List (String × Bool)) (reg : String × Bool) (round : Round) :
    checked (regs ++ [reg]) round = checked regs round ++
      [{ name := reg.1, critical := reg.2, outcome := round.outcome regs.length }] :=
  List.mapIdx_concat

theorem names_checked (regs : List (String × Bool)) (round : Round) :
    (checked regs round).map (·.name) = regs.map (·.1) := by
  induction regs using List.reverseRecOn with
  | nil => rfl
  | append_singleton regs reg ih => rw [checked_concat, List.map_append, ih, List.map_append]; rfl

/-! ## What the registry has of a name -/

def flagOf (r : ComponentRegistry) (name : String) : Option Bool :=
  (r.components.lookup name).map (·.critical)

def statusOf (r : ComponentRegistry) (name : String) : Option ComponentStatus :=
  (r.components.lookup name).map (·.status)

theorem flagOf_register (r : ComponentRegistry) (name other : String) (critical : Bool) :
    flagOf (r.register name critical) other =
      if name = other then some critical else flagOf r other := by
  unfold flagOf ComponentRegistry.register
  split
  · rename_i h
    rw [h, AList.lookup_insert]
    rfl
  · rename_i h
    rw [AList.lookup_insert_ne (Ne.symm h)]

/-- A report leaves the flags of registered names alone. -/
theorem flagOf_report (h : (flagOf r name).isSome) (status : ComponentStatus)
    (error : Option String) (now : Nat) (other : String) :
    flagOf (r.report name status error now) other = flagOf r other := by
  unfold flagOf ComponentRegistry.report
  by_cases heq : other = name
  · obtain ⟨flag, hflag⟩ := Option.isSome_iff_exists.mp h
    unfold flagOf at hflag
    rw [heq, AList.lookup_insert, hflag]
    simp [ComponentRegistry.isCritical, hflag]
  · rw [AList.lookup_insert_ne heq]

theorem statusOf_report (r : ComponentRegistry) (name other : String) (status : ComponentStatus)
    (error : Option String) (now : Nat) :
    statusOf (r.report name status error now) other =
      if name = other then some status else statusOf r other := by
  unfold statusOf ComponentRegistry.report
  split
  · rename_i h
    rw [h, AList.lookup_insert]
    rfl
  · rename_i h
    rw [AList.lookup_insert_ne (Ne.symm h)]

/-! ## A round -/

open HealthCheckManager

theorem flagOf_reports {checks : List (String × Nat)}
    (h : ∀ check ∈ checks, (flagOf r check.1).isSome) (name : String) :
    flagOf (checks.foldl (reportCheck round) r) name = flagOf r name := by
  induction checks generalizing r with
  | nil => rfl
  | cons check checks ih =>
      obtain ⟨hcheck, hchecks⟩ := List.forall_mem_cons.mp h
      have hsame := flagOf_report hcheck (round.outcome check.2).status
        (round.outcome check.2).error (round.now check.2)
      rw [List.foldl_cons, ih fun c hc => ?_]
      · exact hsame name
      · show (flagOf (r.report ..) c.1).isSome
        rw [hsame]
        exact hchecks c hc

/-- By induction from the last check: a report replaces the status of its name. -/
theorem statusOf_reports (r : ComponentRegistry) (regs : List (String × Bool)) (round : Round)
    (name : String) :
    statusOf ((regs.map (·.1)).zipIdx.foldl (reportCheck round) r) name =
      ((last (checked regs round) name).map (·.outcome.status)).or (statusOf r name) := by
  induction regs using List.reverseRecOn with
  | nil => rfl
  | append_singleton regs reg ih =>
      rw [List.map_append, List.zipIdx_append, List.foldl_append, checked_concat, last_concat]
      show statusOf (ComponentRegistry.report ..) name = _
      rw [statusOf_report]
      split
      · simp
      · exact ih

/-! ## Registrations and rounds -/

theorem after_concat (es : List Event) (e : Event) : after (es ++ [e]) = next (after es) e := by
  unfold after
  rw [List.foldl_append]
  rfl

theorem registrations_concat (es : List Event) (e : Event) :
    registrations (es ++ [e]) = registrations es ++ registrations [e] := List.filterMap_append

theorem checks_after (es : List Event) :
    (after es).checks = (registrations es).map (·.1) := by
  induction es using List.reverseRecOn with
  | nil => rfl
  | append_singleton es e ih =>
      rw [after_concat, registrations_concat, List.map_append, ← ih]
      cases e with
      | register name critical => rfl
      | round earlier => exact (List.append_nil _).symm

/-- Every check has a flag in a registry with the flags of the last registrations. -/
theorem flagged (h : ∀ name, flagOf r name = (last (checked regs round) name).map (·.critical)) :
    ∀ check ∈ (regs.map (·.1)).zipIdx, (flagOf r check.1).isSome := by
  intro check hcheck
  rw [h, Option.isSome_map, isSome_last_iff, names_checked]
  exact List.fst_mem_of_mem_zipIdx hcheck

/-- The flag of a name is that of its last registration, which rounds do not change. -/
theorem flagOf_after (es : List Event) (round : Round) (name : String) :
    flagOf (after es).registry name =
      (last (checked (registrations es) round) name).map (·.critical) := by
  induction es using List.reverseRecOn generalizing name with
  | nil => rfl
  | append_singleton es e ih =>
      rw [after_concat, registrations_concat]
      cases e with
      | register other critical =>
          show flagOf (ComponentRegistry.register ..) name = (last (checked (_ ++ [_]) round) _).map _
          rw [flagOf_register, checked_concat, last_concat, ih]
          split <;> rfl
      | round earlier =>
          show flagOf ((after es).runOnce earlier).registry name = _
          rw [runOnce, checks_after, flagOf_reports (flagged ih), ih]
          exact congrArg (fun regs => (last (checked regs round) name).map _)
            (List.append_nil _).symm

/-- After a round a name has flag and status of its last check. -/
theorem lookup_runOnce (es : List Event) (round : Round) (name : String) :
    flagOf ((after es).runOnce round).registry name =
        (last (checked (registrations es) round) name).map (·.critical) ∧
      statusOf ((after es).runOnce round).registry name =
        (last (checked (registrations es) round) name).map (·.outcome.status) := by
  have hflags := flagOf_after es round
  rw [runOnce, checks_after]
  refine ⟨?_, ?_⟩
  · rw [flagOf_reports (flagged hflags), hflags]
  · rw [statusOf_reports]
    cases hlast : last (checked (registrations es) round) name with
    | some c => rfl
    | none =>
        -- a name that was never registered has no state at all
        have hflag := hflags name
        rw [hlast] at hflag
        have hnone : (after es).registry.components.lookup name = none :=
          Option.map_eq_none_iff.mp hflag
        simp [statusOf, hnone]

/-! ## The status -/

theorem status_eq_healthy_iff {outcome : CheckOutcome} :
    outcome.status = .healthy ↔ outcome = .ok := by
  cases outcome <;> simp [CheckOutcome.status]

theorem status_eq_unhealthy_iff {outcome : CheckOutcome} :
    outcome.status = .unhealthy ↔ outcome ≠ .ok := by
  cases outcome <;> simp [CheckOutcome.status]

/-- A registry that has flag and status of the last check of each name. -/
def Shows (made : List Checked) (r : ComponentRegistry) : Prop :=
  ∀ name, flagOf r name = (last made name).map (·.critical) ∧
    statusOf r name = (last made name).map (·.outcome.status)

theorem Shows.states (h : Shows made r) (p : Bool → ComponentStatus → Prop) :
    (∃ state ∈ r.states, p state.critical state.status) ↔
      ∃ c, last made c.name = some c ∧ p c.critical c.outcome.status := by
  constructor
  · rintro ⟨state, hstate, hp⟩
    obtain ⟨name, hlookup⟩ := ComponentRegistry.mem_states.mp hstate
    obtain ⟨hflag, hstatus⟩ := h name
    rw [flagOf, hlookup] at hflag
    rw [statusOf, hlookup] at hstatus
    obtain ⟨c, hlast, hcritical⟩ := Option.map_eq_some_iff.mp hflag.symm
    rw [hlast] at hstatus
    have hsame : state.status = c.outcome.status := Option.some.inj hstatus
    have hflag : c.critical = state.critical := hcritical
    rw [hsame, ← hflag] at hp
    exact ⟨c, by rwa [(last_eq_some hlast).2], hp⟩
  · rintro ⟨c, hlast, hp⟩
    obtain ⟨hflag, hstatus⟩ := h c.name
    rw [hlast] at hflag hstatus
    obtain ⟨state, hlookup, hcritical⟩ := Option.map_eq_some_iff.mp hflag
    rw [statusOf, hlookup] at hstatus
    have hsame : state.status = c.outcome.status := Option.some.inj hstatus
    have hflag : state.critical = c.critical := hcritical
    rw [← hsame, ← hflag] at hp
    exact ⟨state, ComponentRegistry.mem_states.mpr ⟨c.name, hlookup⟩, hp⟩

theorem Shows.unhealthy_iff (h : Shows made r) : r.overallStatus = .unhealthy ↔
    ∃ c, last made c.name = some c ∧ c.critical ∧ c.outcome ≠ .ok := by
  rw [ComponentRegistry.overallStatus_eq_unhealthy_iff,
    h.states fun critical status => critical ∧ status = .unhealthy]
  simp only [status_eq_unhealthy_iff]

theorem Shows.healthy_iff (h : Shows made r) : r.overallStatus = .healthy ↔
    ∀ c, last made c.name = some c → c.outcome = .ok := by
  have hstates := h.states fun _ status => status ≠ .healthy
  rw [ComponentRegistry.overallStatus_eq_healthy_iff, ← not_iff_not]
  push Not
  rw [hstates]
  simp only [ne_eq, status_eq_healthy_iff]

/-- A status that is unhealthy and healthy when it should be is degraded when it should be. -/
theorem reflects_of {status : ComponentStatus}
    (hunhealthy : status = .unhealthy ↔ ∃ c ∈ made, c.critical ∧ c.outcome ≠ .ok)
    (hhealthy : status = .healthy ↔ ∀ c ∈ made, c.outcome = .ok) : Reflects made status := by
  refine ⟨hunhealthy, ?_, hhealthy⟩
  rw [← hunhealthy]
  constructor
  · rintro rfl
    have hfailed : ¬ ∀ c ∈ made, c.outcome = .ok := hhealthy.not.mp (by simp)
    push Not at hfailed
    obtain ⟨c, hc, hfailed⟩ := hfailed
    refine ⟨by simp, c, hc, fun hcritical => ?_, hfailed⟩
    exact absurd (hunhealthy.mpr ⟨c, hc, hcritical, hfailed⟩) (by simp)
  · rintro ⟨hnot, c, hc, -, hfailed⟩
    cases status with
    | unhealthy => exact absurd rfl hnot
    | healthy => exact absurd (hhealthy.mp rfl c hc) hfailed
    | degraded => rfl

/-- The last checks of the names are checks themselves, so what they call for is called for. -/
theorem reflects_iff {status : ComponentStatus}
    (hunhealthy : status = .unhealthy ↔
      ∃ c, last made c.name = some c ∧ c.critical ∧ c.outcome ≠ .ok)
    (hhealthy : status = .healthy ↔ ∀ c, last made c.name = some c → c.outcome = .ok) :
    Reflects made status ↔ Unmasked made := by
  constructor
  · intro h c hc hfailed
    by_cases hcritical : c.critical
    · have hstatus := h.unhealthy.mpr ⟨c, hc, hcritical, hfailed⟩
      obtain ⟨c', hlast, hcritical', hfailed'⟩ := hunhealthy.mp hstatus
      exact ⟨c', hlast, hfailed', fun _ => hcritical'⟩
    · have hstatus : status ≠ .healthy := fun hstatus => hfailed (h.healthy.mp hstatus c hc)
      have hnot := hhealthy.not.mp hstatus
      push Not at hnot
      obtain ⟨c', hlast, hfailed'⟩ := hnot
      exact ⟨c', hlast, hfailed', fun htrue => absurd htrue hcritical⟩
  · intro h
    apply reflects_of
    · rw [hunhealthy]
      constructor
      · rintro ⟨c, hlast, hc⟩
        exact ⟨c, (last_eq_some hlast).1, hc⟩
      · rintro ⟨c, hc, hcritical, hfailed⟩
        obtain ⟨c', hlast, hfailed', himp⟩ := h c hc hfailed
        exact ⟨c', hlast, himp hcritical, hfailed'⟩
    · rw [hhealthy]
      constructor
      · intro hok c hc
        by_contra hfailed
        obtain ⟨c', hlast, hfailed', -⟩ := h c hc hfailed
        exact hfailed' (hok c' hlast)
      · intro hok c hlast
        exact hok c (last_eq_some hlast).1

/-- **The status of a round.** After any registrations and rounds, the status that a further round
leaves is the one its outcomes call for if and only if no failure is masked by a later check of
the same name. -/
theorem status_reflects_iff (es : List Event) (round : Round) :
    Reflects (checked (registrations es) round) ((after es).runOnce round).registry.overallStatus ↔
      Unmasked (checked (registrations es) round) := by
  have hshows : Shows (checked (registrations es) round) ((after es).runOnce round).registry :=
    lookup_runOnce es round
  exact reflects_iff hshows.unhealthy_iff hshows.healthy_iff

def twice : List Event := [.register "db" true, .register "db" true]

def firstRefused : Round where
  outcome i := if i = 0 then .failed "connection refused" else .ok
  now := id

/-- Two critical checks of one name: the first one fails, and the status is healthy. -/
theorem status_reflects_fails :
    ((after twice).runOnce firstRefused).registry.overallStatus = .healthy ∧
      ¬ Reflects (checked (registrations twice) firstRefused)
        ((after twice).runOnce firstRefused).registry.overallStatus := by
  have hstatus : ((after twice).runOnce firstRefused).registry.overallStatus = .healthy := by
    decide
  refine ⟨hstatus, fun h => ?_⟩
  have hok := h.healthy.mp hstatus ⟨"db", true, .failed "connection refused"⟩ List.mem_cons_self
  simp at hok

/-- Checks with names of their own, as the server registers them, mask nothing. -/
theorem unmasked_of_nodup (h : (made.map (·.name)).Nodup) : Unmasked made := by
  intro c hc hfailed
  refine ⟨c, ?_, hfailed, id⟩
  have hsome : (last made c.name).isSome := isSome_last_iff.mpr (List.mem_map_of_mem hc)
  obtain ⟨c', hlast⟩ := Option.isSome_iff_exists.mp hsome
  obtain ⟨hc', hname⟩ := last_eq_some hlast
  rw [hlast, List.inj_on_of_nodup_map h hc' hc hname]

end TopdeskMcp.Theorems.Health
