import TopdeskMcp.Core.ComponentRegistry

/-!
# Health checks (`core/health_check_manager.rs`)

The manager runs its checks one after another and reports each outcome to the registry, where
there is one state a name. Registering appends to the checks whatever their names are.

What a check does is given: `Round` has its outcome, by its place among the checks, and the time
when it is reported.
-/

namespace TopdeskMcp

/-- What `timeout(check())` comes to. -/
inductive CheckOutcome where
  | ok
  | failed (err : String)
  | timedOut
  deriving DecidableEq, Repr

def CheckOutcome.status : CheckOutcome → ComponentStatus
  | .ok => .healthy
  | .failed _ | .timedOut => .unhealthy

def CheckOutcome.error : CheckOutcome → Option String
  | .ok => none
  | .failed err => some err
  | .timedOut => some "timed out"

structure Round where
  outcome : Nat → CheckOutcome
  now : Nat → Nat

structure HealthCheckManager where
  registry : ComponentRegistry
  checks : List String

namespace HealthCheckManager

def new (registry : ComponentRegistry) : HealthCheckManager := { registry, checks := [] }

def register (m : HealthCheckManager) (name : String) (critical : Bool) : HealthCheckManager where
  registry := m.registry.register name critical
  checks := m.checks ++ [name]

/-- The report of a check and its place. -/
def reportCheck (round : Round) (registry : ComponentRegistry) (check : String × Nat) :
    ComponentRegistry :=
  let outcome := round.outcome check.2
  registry.report check.1 outcome.status outcome.error (round.now check.2)

def runOnce (m : HealthCheckManager) (round : Round) : HealthCheckManager where
  registry := m.checks.zipIdx.foldl (reportCheck round) m.registry
  checks := m.checks

end HealthCheckManager

end TopdeskMcp
