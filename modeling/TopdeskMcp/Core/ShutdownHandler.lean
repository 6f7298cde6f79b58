import TopdeskMcp.Core.ConfigSchema
import TopdeskMcp.Lib.Trace
import Mathlib.Tactic.Common

/-!
# Shutting down (`core/shutdown_handler.rs`, `run_harness_server` of `main.rs`)

A server process is three things that run side by side: whoever registers cleanup
callbacks, the task of `install_shutdown_handlers`, which waits for a signal and then
runs `shutdown`, and the main task, which serves until the transport's own loop returns
and the process with it.

* `Harness` is what they share, and `Harness.step` one step of one of them;
* `harness` is the transition system of every order of these steps;
* `startup` is what `run_harness_server` registers before it serves.

Signals are those that arrive once the handlers are installed. A callback is a value
of an arbitrary type; it runs to its end or not at all.
-/

namespace TopdeskMcp

inductive Signal where
  | sigint
  | sigterm
  deriving DecidableEq, Repr

/-- The static `CLEANUP_FNS`, the callbacks a `shutdown` has taken and not run yet, those
that have run, all that were ever registered, and the exit code once there is one. -/
structure Harness (γ : Type) where
  cleanupFns : List γ
  pending : Option (List γ)
  ran : List γ
  registered : List γ
  exitCode : Option Nat
  deriving DecidableEq, Repr

namespace Harness

inductive Event (γ : Type) where
  /-- `on_shutdown` -/
  | onShutdown (f : γ)
  /-- the task of `install_shutdown_handlers` wakes up -/
  | signal (signal : Signal)
  /-- the next callback of `shutdown` returns -/
  | cleanup
  /-- the end of `shutdown` -/
  | exit
  /-- `connect_stdio` or `start_http_server` returns, and then `main` -/
  | transportEnds (transport : Transport) (ok : Bool)

variable {γ : Type}

def initial : Harness γ :=
  { cleanupFns := [], pending := none, ran := [], registered := [], exitCode := none }

/-- A step of a process that has not exited. -/
def act (p : Harness γ) : Event γ → Option (Harness γ)
  | .onShutdown f =>
      some { p with cleanupFns := p.cleanupFns ++ [f], registered := p.registered ++ [f] }
  | .signal _ =>
      match p.pending with
      -- the list is taken, so that what is registered from now on is in no one's hands
      | none => some { p with cleanupFns := [], pending := some p.cleanupFns.reverse }
      -- `select!` has been left with the first signal
      | some _ => none
  | .cleanup =>
      match p.pending with
      | some (f :: rest) => some { p with pending := some rest, ran := p.ran ++ [f] }
      | some [] | none => none
  | .exit =>
      match p.pending with
      | some [] => some { p with exitCode := some 0 }
      | some (_ :: _) | none => none
  -- nothing on this path looks at the callbacks
  | .transportEnds _ ok => some { p with exitCode := some (if ok then 0 else 1) }

def step (p : Harness γ) (e : Event γ) : Option (Harness γ) :=
  if p.exitCode = none then p.act e else none

end Harness

/-- Every order of registrations, signals, cleanups and ends of a server process. -/
def harness (γ : Type) : Trace.Lts (Harness γ) (Harness.Event γ) where
  init p := p = .initial
  step := Harness.step

/-- The callbacks of `run_harness_server`. -/
inductive Cleanup where
  | shutdownTracing
  | abortHealthChecks
  deriving DecidableEq, Repr

/-- What `run_harness_server` registers before it serves; tracing only with a provider. -/
def startup (otelProvider : Bool) : List (Harness.Event Cleanup) :=
  (if otelProvider then [.onShutdown .shutdownTracing] else []) ++ [.onShutdown .abortHealthChecks]

namespace Harness

variable {γ : Type} {p p' : Harness γ}

/-! ## Step inversion -/

theorem step_eq_some {e : Event γ} : p.step e = some p' ↔ p.exitCode = none ∧ p.act e = some p' := by
  unfold step
  split <;> simp_all

theorem step_onShutdown {f : γ} (h : p.step (.onShutdown f) = some p') :
    p.exitCode = none ∧
      p' = { p with cleanupFns := p.cleanupFns ++ [f], registered := p.registered ++ [f] } := by
  obtain ⟨hrunning, hact⟩ := step_eq_some.mp h
  exact ⟨hrunning, (Option.some.inj hact).symm⟩

theorem step_signal {signal : Signal} (h : p.step (.signal signal) = some p') :
    p.exitCode = none ∧ p.pending = none ∧
      p' = { p with cleanupFns := [], pending := some p.cleanupFns.reverse } := by
  obtain ⟨hrunning, hact⟩ := step_eq_some.mp h
  simp only [act] at hact
  split at hact
  · rename_i hpending
    exact ⟨hrunning, hpending, (Option.some.inj hact).symm⟩
  · simp at hact

theorem step_cleanup (h : p.step .cleanup = some p') :
    p.exitCode = none ∧ ∃ f rest, p.pending = some (f :: rest) ∧
      p' = { p with pending := some rest, ran := p.ran ++ [f] } := by
  obtain ⟨hrunning, hact⟩ := step_eq_some.mp h
  simp only [act] at hact
  split at hact
  · rename_i f rest hpending
    exact ⟨hrunning, f, rest, hpending, (Option.some.inj hact).symm⟩
  · simp at hact
  · simp at hact

theorem step_exit (h : p.step .exit = some p') :
    p.exitCode = none ∧ p.pending = some [] ∧ p' = { p with exitCode := some 0 } := by
  obtain ⟨hrunning, hact⟩ := step_eq_some.mp h
  simp only [act] at hact
  split at hact
  · rename_i hpending
    exact ⟨hrunning, hpending, (Option.some.inj hact).symm⟩
  · simp at hact
  · simp at hact

theorem step_transportEnds {transport : Transport} {ok : Bool}
    (h : p.step (.transportEnds transport ok) = some p') :
    p.exitCode = none ∧ p' = { p with exitCode := some (if ok then 0 else 1) } := by
  obtain ⟨hrunning, hact⟩ := step_eq_some.mp h
  exact ⟨hrunning, (Option.some.inj hact).symm⟩

end Harness

end TopdeskMcp
