import TopdeskMcp.Data.ConnectionCache
import TopdeskMcp.Lib.Once
import TopdeskMcp.Theorems.Store

/-!
# One connection for each key

The cache of connections is one that is filled once: a step of a call is a step of `Once` or
none. What is known there is known of the calls, in any order of their steps, and of the
processes of `Store`, whose threads make the same calls with the versions for keys.
-/

namespace TopdeskMcp.Theorems.Connections

open TopdeskMcp TopdeskMcp.ConnectionCache Trace Function

open Store (Connection)

/-- What is returned, and what stays in the cache, between two moments. -/
structure OnePerKey (p p' : ConnectionCache.Process) : Prop where
  same : ∀ tid tid' cacheKey cacheKey' conn conn', p.threads tid = .served cacheKey conn →
    p'.threads tid' = .served cacheKey' conn' →
    (cacheKey = cacheKey' ↔ conn = conn') ∧ (conn.id = conn'.id ↔ conn = conn')
  bound : ∀ cacheKey conn, p.cache cacheKey = some conn → p'.cache cacheKey = some conn

/-- The call that a thread is in has failed by the end of the run: it is in no other one, since
it has looked nothing up. -/
def Fails (p : ConnectionCache.Process) (tid : Nat) (es : List ConnectionCache.Event) : Prop :=
  (∀ e ∈ es, e.tid = tid → ∀ cacheKey path, e.action ≠ .lookup cacheKey path) ∧
    ∃ p', connectionCache.run p es = some p' ∧ p'.threads tid = .failed

/-! ## Calls as steps of `Once` -/

def cell (conn : Connection) : Once.Cell Bytes := ⟨conn.id, conn.database⟩

theorem cell_inj {conn conn' : Connection} : cell conn = cell conn' ↔ conn = conn' := by
  obtain ⟨id, database⟩ := conn
  obtain ⟨id', database'⟩ := conn'
  simp [cell]

def phase : ConnectionCache.Phase → Once.Phase String Bytes
  | .idle => .idle
  | .missed cacheKey _ | .opened cacheKey _ | .copying cacheKey _ => .building cacheKey
  | .leaked cacheKey conn => .built cacheKey (cell conn)
  | .served cacheKey conn => .returned cacheKey (cell conn)
  | .failed => .failed

def abs (p : ConnectionCache.Process) : Once.State String Bytes where
  cache cacheKey := (p.cache cacheKey).map cell
  next := p.leaked
  callers tid := phase (p.threads tid)

variable {p p' : ConnectionCache.Process} {tid : Nat} {target : ConnectionCache.Phase}

theorem abs_goto : abs (p.goto tid target) = (abs p).goto tid (phase target) := by
  have hcallers : (fun t => phase (update p.threads tid target t)) =
      update (fun t => phase (p.threads t)) tid (phase target) := comp_update phase ..
  simp only [abs, ConnectionCache.Process.goto, Once.State.goto, hcallers]

/-- A step between two phases that are one in `Once`. -/
theorem abs_goto_same (h : phase target = phase (p.threads tid)) :
    abs (p.goto tid target) = abs p := by
  rw [abs_goto, h]
  show { abs p with callers := update (abs p).callers tid ((abs p).callers tid) } = abs p
  rw [update_eq_self]

/-- A step of `Once`, as a run. -/
theorem run_once {s s' : Once.State String Bytes} {action : Once.Action String Bytes}
    (h : Once.act s tid action (s.callers tid) = some s') :
    Once.once.run s [⟨tid, action⟩] = some s' := by
  rw [Lts.run_cons]
  show (Once.act s tid action (s.callers tid)).bind _ = _
  rw [h]
  rfl

/-- A step to another phase that `Once` makes too. -/
theorem refines_goto {action : Once.Action String Bytes} {caller : Once.Phase String Bytes}
    (hcaller : (abs p).callers tid = caller)
    (h : Once.act (abs p) tid action caller = some ((abs p).goto tid (phase target))) :
    ∃ fs, Once.once.run (abs p) fs = some (abs (p.goto tid target)) := by
  refine ⟨[⟨tid, action⟩], run_once ?_⟩
  rw [hcaller, abs_goto]
  exact h

/-- Every step of a call is a step of `Once`, or leaves the call where it was there. -/
theorem refines_once : connectionCache.Refines Once.once abs := by
  intro p e p' h
  obtain ⟨tid, action⟩ := e
  have hcaller : (abs p).callers tid = phase (p.threads tid) := rfl
  cases acts_of_act h with
  | @hit cacheKey path conn hphase hconn =>
      rw [hphase] at hcaller
      have hanswer : (abs p).answer cacheKey = phase (.served cacheKey conn) := by
        simp only [Once.State.answer, abs, hconn, Option.map_some, phase]
      apply refines_goto hcaller
      show Once.act _ tid (.request cacheKey) .idle = _
      rw [← hanswer]
      rfl
  | @miss cacheKey path hphase hconn =>
      rw [hphase] at hcaller
      have hanswer : (abs p).answer cacheKey = phase (.missed cacheKey path) := by
        simp only [Once.State.answer, abs, hconn, Option.map_none, phase]
      apply refines_goto hcaller
      show Once.act _ tid (.request cacheKey) .idle = _
      rw [← hanswer]
      rfl
  | openStore hphase =>
      refine ⟨[], congrArg some (abs_goto_same ?_).symm⟩
      rw [hphase]
      rfl
  | openInMemory hphase =>
      refine ⟨[], congrArg some (abs_goto_same ?_).symm⟩
      rw [hphase]
      rfl
  | @leak cacheKey diskConn hphase =>
      rw [hphase] at hcaller
      refine ⟨[⟨tid, .build diskConn⟩], run_once ?_⟩
      rw [hcaller, abs_goto]
      rfl
  | fail hphase =>
      have hbuilding : ∃ cacheKey, (abs p).callers tid = .building cacheKey := by
        rw [hcaller]
        rcases hphase with ⟨cacheKey, path, hphase⟩ | ⟨cacheKey, diskConn, hphase⟩ |
          ⟨cacheKey, diskConn, hphase⟩
        all_goals exact ⟨cacheKey, by rw [hphase]; rfl⟩
      obtain ⟨cacheKey, hbuilding⟩ := hbuilding
      apply refines_goto hbuilding
      show Once.act _ tid .abandon (.building cacheKey) = _
      rfl
  | @insert cacheKey leaked conn hphase hconn =>
      rw [hphase] at hcaller
      refine ⟨[⟨tid, .insert⟩], run_once ?_⟩
      have hheld : (abs p).held cacheKey (cell leaked) = cell conn := by
        rw [hconn, Once.State.held]
        show ((p.cache cacheKey).map cell).getD (cell leaked) = _
        cases p.cache cacheKey <;> rfl
      have hcache : (fun key => (update p.cache cacheKey (some conn) key).map cell) =
          update (fun key => (p.cache key).map cell) cacheKey (some (cell conn)) :=
        comp_update (Option.map cell) ..
      rw [hcaller, abs_goto]
      show some ((abs p).insert tid cacheKey (cell leaked)) = _
      rw [Once.State.insert, hheld]
      simp only [abs, hcache, phase]
  | finish hphase =>
      rcases hphase with ⟨cacheKey, conn, hphase⟩ | hphase
      · rw [hphase] at hcaller
        apply refines_goto hcaller
        show Once.act _ tid .finish (.returned cacheKey (cell conn)) = _
        rfl
      · rw [hphase] at hcaller
        apply refines_goto hcaller
        show Once.act _ tid .finish .failed = _
        rfl

theorem fresh_abs (h : p.Fresh) : Once.Fresh (abs p) := by
  constructor
  · intro cacheKey
    show (p.cache cacheKey).map cell = none
    rw [h.1]
    rfl
  · intro tid
    show phase (p.threads tid) = .idle
    rw [h.2]
    rfl

theorem onePerKey {p₀ : ConnectionCache.Process} {es fs : List ConnectionCache.Event}
    (h₀ : p₀.Fresh) (hrun : connectionCache.run p₀ es = some p)
    (hrun' : connectionCache.run p fs = some p') : OnePerKey p p' := by
  obtain ⟨gs, hgs⟩ := refines_once.run hrun
  obtain ⟨gs', hgs'⟩ := refines_once.run hrun'
  constructor
  · intro tid tid' cacheKey cacheKey' conn conn' hserved hserved'
    have hreturned : (abs p).callers tid = .returned cacheKey (cell conn) := congrArg phase hserved
    have hreturned' : (abs p').callers tid' = .returned cacheKey' (cell conn') :=
      congrArg phase hserved'
    obtain ⟨hkey, haddress⟩ := Once.same_iff (fresh_abs h₀) hgs hgs' hreturned hreturned'
    rw [cell_inj] at hkey haddress
    exact ⟨hkey, haddress⟩
  · intro cacheKey conn hcache
    have hbound : (abs p).cache cacheKey = some (cell conn) := congrArg (Option.map cell) hcache
    obtain ⟨conn', hconn', hcell⟩ := Option.map_eq_some_iff.mp (Once.bound_run hgs' hbound)
    rw [hconn', cell_inj.mp hcell]

/-! ## Calls that fail -/

/-- No call, or one that has returned a connection. -/
def Settled (p : ConnectionCache.Process) (tid : Nat) : Prop :=
  p.threads tid = .idle ∨ ∃ cacheKey conn, p.threads tid = .served cacheKey conn

@[simp] theorem threads_goto_self : (p.goto tid target).threads tid = target := update_self ..

theorem threads_goto_of_ne {other : Nat} (h : other ≠ tid) :
    (p.goto tid target).threads other = p.threads other := update_of_ne h ..

/-- Only the own steps of a thread change where it is. -/
theorem Acts.threads_of_ne {action : ConnectionCache.Action} {other : Nat}
    (h : ConnectionCache.Acts p tid action p') (hne : other ≠ tid) :
    p'.threads other = p.threads other := by
  cases h <;> exact threads_goto_of_ne hne

/-- Without a lookup there is no other call. -/
theorem Acts.settled {action : ConnectionCache.Action} {other : Nat}
    (h : ConnectionCache.Acts p tid action p')
    (hlookup : tid = other → ∀ cacheKey path, action ≠ .lookup cacheKey path)
    (hsettled : Settled p other) : Settled p' other := by
  by_cases heq : other = tid
  · subst heq
    cases h with
    | hit => exact absurd rfl (hlookup rfl _ _)
    | miss => exact absurd rfl (hlookup rfl _ _)
    | finish => exact .inl threads_goto_self
    | insert => exact .inr ⟨_, _, threads_goto_self⟩
    | fail hphase | _ hphase =>
        rcases hsettled with hidle | ⟨cacheKey, conn, hserved⟩
        · simp [hidle] at hphase
        · simp [hserved] at hphase
  · unfold Settled
    rw [Acts.threads_of_ne h heq]
    exact hsettled

theorem settled_run {es : List ConnectionCache.Event}
    (hes : ∀ e ∈ es, e.tid = tid → ∀ cacheKey path, e.action ≠ .lookup cacheKey path)
    (hsettled : Settled p tid) (hrun : connectionCache.run p es = some p') : Settled p' tid := by
  have hinductive : connectionCache.Inductive
      (fun _ e => e.tid = tid → ∀ cacheKey path, e.action ≠ .lookup cacheKey path)
      (Settled · tid) := fun _ _ _ hsettled hlookup hstep =>
    Acts.settled (acts_of_act hstep) hlookup hsettled
  exact hinductive.run hsettled (Lts.along_of_forall_mem fun e he _ => hes e he) hrun

/-- The one step that changes the cache is the last one of a call that returns. -/
theorem cache_of_fails {e : ConnectionCache.Event} {es : List ConnectionCache.Event}
    (hstep : connectionCache.step p e = some p') (hfails : Fails p' e.tid es) :
    p'.cache = p.cache := by
  obtain ⟨tid, action⟩ := e
  obtain ⟨hes, p'', hrun, hfailed⟩ := hfails
  cases acts_of_act hstep with
  | insert =>
      have hsettled := settled_run hes (.inr ⟨_, _, threads_goto_self⟩) hrun
      rcases hsettled with hidle | ⟨cacheKey, conn, hserved⟩
      · rw [hfailed] at hidle
        contradiction
      · rw [hfailed] at hserved
        contradiction
  | _ => rfl

/-- **One connection per key.** In every order of the steps of any calls, what two calls return
is one connection if and only if they have the same key, no key is bound to another one, and
no step of a call that fails changes the cache. -/
theorem one_connection_per_key (p₀ : ConnectionCache.Process) (h₀ : p₀.Fresh) :
    (∀ es fs p p', connectionCache.run p₀ es = some p → connectionCache.run p fs = some p' →
      OnePerKey p p') ∧
    ∀ p e p' es, connectionCache.step p e = some p' → Fails p' e.tid es → p'.cache = p.cache :=
  ⟨fun _ _ _ _ hrun hrun' => onePerKey h₀ hrun hrun',
    fun _ _ _ _ hstep hfails => cache_of_fails hstep hfails⟩

/-! ## The threads of `Store` -/

/-- What a thread of `Store` is doing, as a thread that calls. -/
def threadPhase : Store.Phase → ConnectionCache.Phase
  | .missed apiVersion file => .missed apiVersion file
  | .opened apiVersion diskConn => .opened apiVersion diskConn
  | .served apiVersion conn => .served apiVersion conn
  | _ => .idle

def calls (p : Store.Process) : ConnectionCache.Process where
  cache := p.cache
  leaked := p.leaked
  threads tid := threadPhase (p.threads tid)

theorem goto_goto {next : ConnectionCache.Phase} :
    (p.goto tid target).goto tid next = p.goto tid next := by
  simp only [ConnectionCache.Process.goto, update_idem]

theorem goto_same (h : p.threads tid = target) : p.goto tid target = p := by
  rw [ConnectionCache.Process.goto, ← h, update_eq_self]

theorem run_call {action : ConnectionCache.Action} {es : List ConnectionCache.Event}
    (p' : ConnectionCache.Process)
    (h : act p tid action (p.threads tid) = some p') :
    connectionCache.run p (⟨tid, action⟩ :: es) = connectionCache.run p' es := by
  rw [Lts.run_cons]
  show (act p tid action (p.threads tid)).bind _ = _
  rw [h]
  rfl

section

variable {q q' : Store.Process} {phase : Store.Phase}

theorem calls_goto : calls (q.goto tid phase) = (calls q).goto tid (threadPhase phase) := by
  have hthreads : (fun t => threadPhase (update q.threads tid phase t)) =
      update (fun t => threadPhase (q.threads t)) tid (threadPhase phase) :=
    comp_update threadPhase ..
  simp only [calls, Store.Process.goto, ConnectionCache.Process.goto, hthreads]

/-- A step that is not one of a call. -/
theorem calls_of_idle (hcalls : calls q' = calls q) (hq : threadPhase (q.threads tid) = .idle)
    (hphase : threadPhase phase = .idle) : calls (q'.goto tid phase) = calls q := by
  rw [calls_goto, hcalls, hphase, goto_same hq]

/-- A call that fails is over with the next step. -/
theorem run_failed {action : ConnectionCache.Action}
    (h : act (calls q) tid action ((calls q).threads tid) = some ((calls q).goto tid .failed)) :
    ∃ es, connectionCache.run (calls q) es = some (calls (q.goto tid .failed)) := by
  refine ⟨[⟨tid, action⟩, ⟨tid, .finish⟩], ?_⟩
  rw [run_call ((calls q).goto tid .failed) h, calls_goto]
  refine run_call _ ?_
  rw [threads_goto_self]
  exact congrArg some goto_goto

/-- A step of a thread of `Store` is some steps of its call. -/
theorem run_calls {decodeAll : Bytes → Option Bytes} {pid : Nat} {dir dir' : Store.Dir}
    {action : Store.Action} (h : Store.Acts decodeAll pid tid dir q action dir' q') :
    ∃ es, connectionCache.run (calls q) es = some (calls q') := by
  have hthread : (calls q).threads tid = threadPhase (q.threads tid) := rfl
  cases h with
  | call hphase =>
      rw [calls_goto]
      rcases hphase with ⟨v, conn, hserved⟩ | hfailed
      · rw [hserved] at hthread
        exact ⟨[⟨tid, .finish⟩], run_call _ (by rw [hthread]; rfl)⟩
      · rw [hfailed] at hthread
        exact ⟨[], congrArg some (goto_same hthread).symm⟩
  | reuse hphase | refuse hphase | extract hphase | create hphase | write hphase | close hphase
  | publish hphase | retry hphase | giveUp hphase =>
      exact ⟨[], congrArg some (calls_of_idle rfl (by rw [hphase]; rfl) rfl).symm⟩
  | fail hphase =>
      refine ⟨[], congrArg some (calls_of_idle rfl ?_ rfl).symm⟩
      rcases hphase with ⟨v, file, tmp, content, hphase⟩ | ⟨v, file, tmp, content, k, hphase⟩
      · rw [hphase]
        rfl
      · rw [hphase]
        rfl
  | crash => exact ⟨[], rfl⟩
  | @hit v file conn hphase hconn =>
      rw [hphase] at hthread
      have hcache : (calls q).cache v = some conn := hconn
      refine ⟨[⟨tid, .lookup v file⟩], run_call _ ?_⟩
      rw [hthread, calls_goto]
      simp only [threadPhase, act, hcache]
  | @miss v file hphase hconn =>
      rw [hphase] at hthread
      have hcache : (calls q).cache v = none := hconn
      refine ⟨[⟨tid, .lookup v file⟩], run_call _ ?_⟩
      rw [hthread, calls_goto]
      simp only [threadPhase, act, hcache]
  | @openStore v file diskConn hphase hdisk =>
      rw [hphase] at hthread
      refine ⟨[⟨tid, .openStore (some diskConn)⟩], run_call _ ?_⟩
      rw [hthread, calls_goto]
      rfl
  | openFailed hphase =>
      rw [hphase] at hthread
      apply run_failed
      rw [hthread]
      show act _ tid (.openStore none) _ = _
      rfl
  | @copy v diskConn conn hphase hconn =>
      rw [hphase] at hthread
      let copying := (calls q).goto tid (.copying v diskConn)
      let leaked := { copying with leaked := q.leaked + 1 }.goto tid (.leaked v ⟨q.leaked, diskConn⟩)
      have hcopying : copying.threads tid = .copying v diskConn := threads_goto_self
      have hleaked : leaked.threads tid = .leaked v ⟨q.leaked, diskConn⟩ := threads_goto_self
      refine ⟨[⟨tid, .openInMemory true⟩, ⟨tid, .backup true⟩, ⟨tid, .insert⟩], ?_⟩
      rw [run_call copying (by rw [hthread]; rfl), run_call leaked (by rw [hcopying]; rfl)]
      refine run_call _ ?_
      rw [hleaked, hconn, calls_goto]
      simp only [act, threadPhase, leaked, copying, calls, ConnectionCache.Process.goto, update_idem]
  | @copyFailed v diskConn hphase =>
      rw [hphase] at hthread
      apply run_failed
      rw [hthread]
      show act _ tid (.openInMemory false) _ = _
      rfl

end

/-- The connections of a process of `Store` are cached once too. -/
theorem refines_calls (decodeAll : Bytes → Option Bytes) (pid : Nat) :
    (store decodeAll).Refines connectionCache fun w => calls (w.procs pid) := by
  intro w e w' h
  obtain ⟨-, dir', q', hact, rfl⟩ := Store.step_eq_some.mp h
  by_cases hpid : pid = e.pid
  · subst hpid
    show ∃ fs, connectionCache.run _ fs = some (calls (update w.procs e.pid q' e.pid))
    rw [update_self]
    exact run_calls (Store.acts_of_act hact)
  · refine ⟨[], congrArg some ?_⟩
    show _ = calls (update w.procs e.pid q' pid)
    rw [update_of_ne hpid]

theorem store_onePerKey {decodeAll : Bytes → Option Bytes} {w₀ w w' : Store.World}
    {es fs : List Store.Event} (h₀ : ∀ pid, (w₀.procs pid).Fresh)
    (hrun : (store decodeAll).run w₀ es = some w) (hrun' : (store decodeAll).run w fs = some w')
    (pid : Nat) : OnePerKey (calls (w.procs pid)) (calls (w'.procs pid)) := by
  obtain ⟨gs, hgs⟩ := (refines_calls decodeAll pid).run hrun
  obtain ⟨gs', hgs'⟩ := (refines_calls decodeAll pid).run hrun'
  refine onePerKey ⟨fun v => (h₀ pid).2.2.1 v, fun tid => ?_⟩ hgs hgs'
  show threadPhase ((w₀.procs pid).threads tid) = .idle
  rw [(h₀ pid).2.2.2 tid]
  rfl

/-! ## Two threads at once -/

namespace Race

def idle : ConnectionCache.Process := ⟨fun _ => none, 0, fun _ => .idle⟩

theorem idle_fresh : idle.Fresh := ⟨fun _ => rfl, fun _ => rfl⟩

/-- Both miss the key and copy the file; the second one finds a connection when it comes to
insert its own. -/
def race : List ConnectionCache.Event :=
  [⟨0, .lookup "incident-4.2.6" "incident.db"⟩, ⟨1, .lookup "incident-4.2.6" "incident.db"⟩,
   ⟨1, .openStore (some [1])⟩, ⟨0, .openStore (some [1])⟩, ⟨0, .openInMemory true⟩,
   ⟨1, .openInMemory true⟩, ⟨1, .backup true⟩, ⟨0, .backup true⟩, ⟨1, .insert⟩]

/-- The other thread returns, and a third one fails. -/
def later : List ConnectionCache.Event :=
  [⟨0, .insert⟩, ⟨2, .lookup "change-1.4.0" "change.db"⟩, ⟨2, .openStore none⟩]

theorem one_connection_per_key_race : ∃ p p', connectionCache.run idle race = some p ∧
    connectionCache.run p later = some p' ∧ OnePerKey p p' :=
  ⟨_, _, rfl, rfl, (one_connection_per_key idle idle_fresh).1 race later _ _ rfl rfl⟩

end Race

end TopdeskMcp.Theorems.Connections
