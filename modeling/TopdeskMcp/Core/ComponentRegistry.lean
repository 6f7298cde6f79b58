import Mathlib.Data.List.AList

/-!
# The health of the components (`core/component_registry.rs`)

One state a name: registering a name again replaces its state, a report keeps its flag.
-/

namespace TopdeskMcp

inductive ComponentStatus where
  | healthy
  | degraded
  | unhealthy
  deriving DecidableEq, Repr

structure ComponentState where
  name : String
  critical : Bool
  status : ComponentStatus
  lastCheckedAt : Option Nat
  lastError : Option String
  deriving DecidableEq, Repr

structure ComponentRegistry where
  components : AList fun _ : String => ComponentState

namespace ComponentRegistry

def new : ComponentRegistry := { components := ∅ }

def register (registry : ComponentRegistry) (name : String) (critical : Bool) :
    ComponentRegistry where
  components := registry.components.insert name
    { name, critical, status := .healthy, lastCheckedAt := none, lastError := none }

/-- Whether a name is registered as critical; one that is not registered is not. -/
def isCritical (registry : ComponentRegistry) (name : String) : Bool :=
  ((registry.components.lookup name).map (·.critical)).getD false

def report (registry : ComponentRegistry) (name : String) (status : ComponentStatus)
    (error : Option String) (now : Nat) : ComponentRegistry where
  components := registry.components.insert name
    { name, critical := registry.isCritical name, status, lastCheckedAt := some now,
      lastError := error }

def states (registry : ComponentRegistry) : List ComponentState :=
  registry.components.entries.map (·.2)

def overallStatus (registry : ComponentRegistry) : ComponentStatus :=
  if registry.states.any fun c => c.critical && c.status == .unhealthy then .unhealthy
  else if registry.states.any fun c => c.status != .healthy then .degraded
  else .healthy

theorem mem_states {registry : ComponentRegistry} {state : ComponentState} :
    state ∈ registry.states ↔ ∃ name, registry.components.lookup name = some state := by
  simp only [states, List.mem_map, AList.mem_lookup_iff.symm, Sigma.exists, Option.mem_def]
  constructor
  · rintro ⟨name, state', hlookup, rfl⟩
    exact ⟨name, hlookup⟩
  · rintro ⟨name, hlookup⟩
    exact ⟨name, state, hlookup, rfl⟩

theorem overallStatus_eq_unhealthy_iff {registry : ComponentRegistry} :
    registry.overallStatus = .unhealthy ↔
      ∃ state ∈ registry.states, state.critical ∧ state.status = .unhealthy := by
  unfold overallStatus
  split_ifs with hcritical hfailed
  · simpa using hcritical
  · simpa using hcritical
  · simpa using hcritical

theorem overallStatus_eq_healthy_iff {registry : ComponentRegistry} :
    registry.overallStatus = .healthy ↔ ∀ state ∈ registry.states, state.status = .healthy := by
  unfold overallStatus
  split_ifs with hcritical hfailed
  · obtain ⟨state, hmem, hstate⟩ := List.any_eq_true.mp hcritical
    have hunhealthy : state.status = .unhealthy := by simp_all
    refine ⟨fun h => by simp at h, fun hall => ?_⟩
    rw [hall state hmem] at hunhealthy
    simp at hunhealthy
  · obtain ⟨state, hmem, hstate⟩ := List.any_eq_true.mp hfailed
    refine ⟨fun h => by simp at h, fun hall => ?_⟩
    rw [hall state hmem] at hstate
    simp at hstate
  · refine ⟨fun _ state hmem => ?_, fun _ => rfl⟩
    by_contra hne
    exact hfailed (List.any_eq_true.mpr ⟨state, hmem, by simpa using hne⟩)

end ComponentRegistry

end TopdeskMcp
