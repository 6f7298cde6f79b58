import TopdeskMcp.Data.Store

/-!
# The cache of connections (`data/store.rs`)

`cached_in_memory_connection` with the `CACHE` of one process and any number of threads. One step
is one locked section or one call: the cache is looked up and filled under its lock, and the
file is opened and copied in between without it.

`Store` has these steps for the versions there are, over the shared directory. Here keys and
paths are any, and what the file holds is part of the step.
-/

namespace TopdeskMcp

namespace ConnectionCache

open Store (Connection)

/-- Where a thread is in a call. -/
inductive Phase where
  | idle
  | missed (cacheKey path : String)
  | opened (cacheKey : String) (diskConn : Bytes)
  | copying (cacheKey : String) (diskConn : Bytes)
  | leaked (cacheKey : String) (conn : Connection)
  | served (cacheKey : String) (conn : Connection)
  | failed

structure Process where
  cache : String → Option Connection
  leaked : Nat
  threads : Nat → Phase

inductive Action where
  | lookup (cacheKey path : String)
  | openStore (diskConn : Option Bytes)
  | openInMemory (ok : Bool)
  | backup (ok : Bool)
  | insert
  | finish

structure Event where
  tid : Nat
  action : Action

def Process.goto (p : Process) (tid : Nat) (phase : Phase) : Process :=
  { p with threads := Function.update p.threads tid phase }

def act (p : Process) (tid : Nat) : Action → Phase → Option Process
  | .lookup cacheKey path, .idle =>
      match p.cache cacheKey with
      | some conn => some (p.goto tid (.served cacheKey conn))
      | none => some (p.goto tid (.missed cacheKey path))
  | .openStore diskConn, .missed cacheKey _ =>
      match diskConn with
      | some diskConn => some (p.goto tid (.opened cacheKey diskConn))
      | none => some (p.goto tid .failed)
  | .openInMemory ok, .opened cacheKey diskConn =>
      some (p.goto tid (if ok then .copying cacheKey diskConn else .failed))
  | .backup ok, .copying cacheKey diskConn =>
      -- `Box::leak`: the connection is at an address of its own for good
      if ok then
        some ({ p with leaked := p.leaked + 1 }.goto tid (.leaked cacheKey ⟨p.leaked, diskConn⟩))
      else some (p.goto tid .failed)
  | .insert, .leaked cacheKey leaked =>
      -- `entry(cache_key).or_insert(leaked)`
      let conn := (p.cache cacheKey).getD leaked
      some ({ p with cache := Function.update p.cache cacheKey (some conn) }.goto tid
        (.served cacheKey conn))
  | .finish, .served _ _ => some (p.goto tid .idle)
  | .finish, .failed => some (p.goto tid .idle)
  | _, _ => none

/-- All that a step can do: the phase it is taken in, and what it leaves. -/
inductive Acts (p : Process) (tid : Nat) : Action → Process → Prop
  | hit {cacheKey path conn} (hphase : p.threads tid = .idle)
      (hconn : p.cache cacheKey = some conn) :
      Acts p tid (.lookup cacheKey path) (p.goto tid (.served cacheKey conn))
  | miss {cacheKey path} (hphase : p.threads tid = .idle) (hconn : p.cache cacheKey = none) :
      Acts p tid (.lookup cacheKey path) (p.goto tid (.missed cacheKey path))
  | openStore {cacheKey path diskConn} (hphase : p.threads tid = .missed cacheKey path) :
      Acts p tid (.openStore (some diskConn)) (p.goto tid (.opened cacheKey diskConn))
  | openInMemory {cacheKey diskConn} (hphase : p.threads tid = .opened cacheKey diskConn) :
      Acts p tid (.openInMemory true) (p.goto tid (.copying cacheKey diskConn))
  | leak {cacheKey diskConn} (hphase : p.threads tid = .copying cacheKey diskConn) :
      Acts p tid (.backup true)
        ({ p with leaked := p.leaked + 1 }.goto tid (.leaked cacheKey ⟨p.leaked, diskConn⟩))
  | fail {action} (hphase : (∃ cacheKey path, p.threads tid = .missed cacheKey path) ∨
        (∃ cacheKey diskConn, p.threads tid = .opened cacheKey diskConn) ∨
        ∃ cacheKey diskConn, p.threads tid = .copying cacheKey diskConn) :
      Acts p tid action (p.goto tid .failed)
  | insert {cacheKey leaked conn} (hphase : p.threads tid = .leaked cacheKey leaked)
      (hconn : conn = (p.cache cacheKey).getD leaked) :
      Acts p tid .insert
        ({ p with cache := Function.update p.cache cacheKey (some conn) }.goto tid
          (.served cacheKey conn))
  | finish (hphase : (∃ cacheKey conn, p.threads tid = .served cacheKey conn) ∨
        p.threads tid = .failed) :
      Acts p tid .finish (p.goto tid .idle)

/-- Inversion of `act`. -/
theorem acts_of_act {p p' : Process} {tid : Nat} {action : Action}
    (h : act p tid action (p.threads tid) = some p') : Acts p tid action p' := by
  cases hphase : p.threads tid with
  | idle =>
      rw [hphase] at h
      cases action with
      | lookup cacheKey path =>
          simp only [act] at h
          split at h <;> cases h
          · exact .hit hphase ‹_›
          · exact .miss hphase ‹_›
      | _ => cases h
  | missed cacheKey path =>
      rw [hphase] at h
      cases action with
      | openStore diskConn =>
          cases diskConn <;> cases h
          · exact .fail (.inl ⟨_, _, hphase⟩)
          · exact .openStore hphase
      | _ => cases h
  | opened cacheKey diskConn =>
      rw [hphase] at h
      cases action with
      | openInMemory ok =>
          cases ok <;> cases h
          · exact .fail (.inr (.inl ⟨_, _, hphase⟩))
          · exact .openInMemory hphase
      | _ => cases h
  | copying cacheKey diskConn =>
      rw [hphase] at h
      cases action with
      | backup ok =>
          cases ok <;> cases h
          · exact .fail (.inr (.inr ⟨_, _, hphase⟩))
          · exact .leak hphase
      | _ => cases h
  | leaked cacheKey leaked =>
      rw [hphase] at h
      cases action with
      | insert =>
          cases h
          exact .insert hphase rfl
      | _ => cases h
  | served cacheKey conn =>
      rw [hphase] at h
      cases action with
      | finish =>
          cases h
          exact .finish (.inl ⟨_, _, hphase⟩)
      | _ => cases h
  | failed =>
      rw [hphase] at h
      cases action with
      | finish =>
          cases h
          exact .finish (.inr hphase)
      | _ => cases h

/-- No call has been made. -/
def Process.Fresh (p : Process) : Prop :=
  (∀ cacheKey, p.cache cacheKey = none) ∧ ∀ tid, p.threads tid = .idle

end ConnectionCache

/-- Any number of threads that call `cached_in_memory_connection`. -/
def connectionCache : Trace.Lts ConnectionCache.Process ConnectionCache.Event where
  init := ConnectionCache.Process.Fresh
  step p e := ConnectionCache.act p e.tid e.action (p.threads e.tid)

end TopdeskMcp
