import TopdeskMcp.Lib.Recency
import TopdeskMcp.Lib.Trace
import Mathlib.Data.List.AList

/-!
# The query cache (`core/cache_manager.rs`)

A map behind a mutex whose entries expire. An expired entry is removed when it is asked for, and
a full map gives up the key that its iterator comes to first (`first`), which may be any.

An `Instant` cannot be later than `lastInstant`. `set` adds the ttl to the time with the lock
held, so when that is later the call panics and the lock is poisoned: then every call panics.
-/

namespace TopdeskMcp

structure CacheEntry (α : Type) where
  value : α
  expiresAt : Nat

structure QueryCache (α : Type) where
  maxSize : Nat
  ttl : Nat
  store : AList fun _ : String => CacheEntry α
  poisoned : Bool

namespace QueryCache

inductive Answer (β : Type) where
  | returned (value : β)
  | panicked
  deriving DecidableEq, Repr

variable {α : Type}

def new (maxSize ttl : Nat) : QueryCache α := { maxSize, ttl, store := ∅, poisoned := false }

def default : QueryCache α := new 500 60_000_000_000

def get (cache : QueryCache α) (key : String) (now : Nat) :
    Answer (Option α) × QueryCache α :=
  if cache.poisoned then (.panicked, cache)
  else match cache.store.lookup key with
    | none => (.returned none, cache)
    | some entry =>
        if entry.expiresAt < now then
          (.returned none, { cache with store := cache.store.erase key })
        else (.returned (some entry.value), cache)

/-- The map without the first key, if a new key does not fit. -/
def evict (cache : QueryCache α) (key : String) (first : Option String) :
    AList fun _ : String => CacheEntry α :=
  if cache.maxSize ≤ cache.store.entries.length ∧ key ∉ cache.store then
    match first with
    | some oldestKey => cache.store.erase oldestKey
    | none => cache.store
  else cache.store

def set (lastInstant : Nat) (cache : QueryCache α) (key : String) (value : α)
    (first : Option String) (now : Nat) : Answer Unit × QueryCache α :=
  if cache.poisoned then (.panicked, cache)
  else if now + cache.ttl ≤ lastInstant then
    (.returned (), { cache with
      store := (cache.evict key first).insert key { value, expiresAt := now + cache.ttl } })
  else (.panicked, { cache with store := cache.evict key first, poisoned := true })

def clear (cache : QueryCache α) : Answer Unit × QueryCache α :=
  if cache.poisoned then (.panicked, cache) else (.returned (), { cache with store := ∅ })

/-! ## Sequences of calls -/

inductive Call (α : Type) where
  | get (key : String)
  | set (key : String) (value : α) (first : Option String)
  | clear

structure Event (α : Type) where
  now : Nat
  call : Call α

def perform (lastInstant : Nat) (cache : QueryCache α) (e : Event α) : QueryCache α :=
  match e.call with
  | .get key => (cache.get key e.now).2
  | .set key value first => (cache.set lastInstant key value first e.now).2
  | .clear => cache.clear.2

/-- An iterator comes to some key first, unless there is none. -/
def Call.Possible (store : AList fun _ : String => CacheEntry α) : Call α → Prop
  | .set _ _ (some oldestKey) => oldestKey ∈ store
  | .set _ _ none => store.entries = []
  | _ => True

instance (store : AList fun _ : String => CacheEntry α) (call : Call α) :
    Decidable (call.Possible store) :=
  match call with
  | .set _ _ (some oldestKey) => inferInstanceAs (Decidable (oldestKey ∈ store))
  | .set _ _ none => decidable_of_iff (store.entries.isEmpty = true) List.isEmpty_iff
  | .get _ => .isTrue trivial
  | .clear => .isTrue trivial

/-- A cache and the time of the last call. -/
structure Timed (α : Type) where
  cache : QueryCache α
  clock : Nat

def step (lastInstant : Nat) (s : Timed α) (e : Event α) : Option (Timed α) :=
  if s.clock ≤ e.now ∧ e.call.Possible s.cache.store then
    some { cache := s.cache.perform lastInstant e, clock := e.now }
  else none

theorem step_eq_some {lastInstant : Nat} {s s' : Timed α} {e : Event α} :
    step lastInstant s e = some s' ↔ (s.clock ≤ e.now ∧ e.call.Possible s.cache.store) ∧
      s' = { cache := s.cache.perform lastInstant e, clock := e.now } := by
  rw [step, Option.ite_none_right_eq_some, Option.some.injEq, eq_comm]

/-- What a call writes, and when. -/
def Event.entry (e : Event α) : Option (Recency.Entry String (α × Nat)) :=
  match e.call with
  | .get _ => none
  | .set key value _ => some (.write key (value, e.now))
  | .clear => some .reset

/-- The writes and resets of a run, the newest first. -/
def log (es : List (Event α)) : List (Recency.Entry String (α × Nat)) :=
  es.reverse.filterMap Event.entry

theorem log_concat (es : List (Event α)) (e : Event α) :
    log (es ++ [e]) = e.entry.toList ++ log es := by
  rw [log, List.reverse_concat, List.filterMap_cons, log]
  cases e.entry <;> rfl

end QueryCache

/-- Calls on a cache that was new, one after another. -/
def queryCache (α : Type) (lastInstant maxSize ttl : Nat) :
    Trace.Lts (QueryCache.Timed α) (QueryCache.Event α) where
  init s := s.cache = .new maxSize ttl
  step := QueryCache.step lastInstant

end TopdeskMcp
