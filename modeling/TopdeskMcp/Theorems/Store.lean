import TopdeskMcp.Data.Store

/-!
# The store file under concurrent processes

Two promises of `resolve_store_path`, over every interleaving of any number of
processes with any number of threads, with crashes anywhere:

* **no partial file** — a store file is absent or complete at every moment.
  Only the thread that holds its process's lock writes, only under a temporary
  name that carries its process id, and only the rename touches a store file
  (`WriterInv`);
* **own catalog** — a served connection holds the payload of the process's own
  release. All releases share one destination path, so this holds exactly as
  long as no process renames a different payload over a path that another one
  has resolved and not yet copied into memory (`NotShadowed`).
-/

namespace TopdeskMcp.Theorems.Store

open TopdeskMcp TopdeskMcp.Store Trace Function

variable {decodeAll : Bytes → Option Bytes} {dir dir' : Dir} {pid tid : Nat}
  {p p' : Process} {phase : Phase} {action : Action} {w w' : World}

/-- A step of the system is a step of one live process. -/
theorem step_eq_some {e : Event} : Store.step decodeAll w e = some w' ↔
    (w.procs e.pid).alive = true ∧ ∃ dir' p',
      act decodeAll e.pid e.tid w.dir (w.procs e.pid) e.action = some (dir', p') ∧
      w' = { dir := dir', procs := update w.procs e.pid p' } := by
  unfold Store.step
  split
  · rename_i halive
    simp [halive, eq_comm]
  · rename_i hdead
    simp [hdead]

/-- No step changes what a process's release embeds. -/
theorem Acts.versionStoreBytes (h : Acts decodeAll pid tid dir p action dir' p') :
    p'.versionStoreBytes = p.versionStoreBytes := by
  cases h <;> rfl

theorem Acts.payload (h : Acts decodeAll pid tid dir p action dir' p') (v : String) :
    p'.payload decodeAll v = p.payload decodeAll v := by
  simp only [Process.payload, Acts.versionStoreBytes h]

/-! ## No partial store file -/

/-- Thread `tid` is extracting its own release's payload for `v`, under the lock
and a temporary name of its process. -/
structure Extracting (decodeAll : Bytes → Option Bytes) (pid tid : Nat) (p : Process)
    (v file tmp : String) (content : Bytes) : Prop where
  lock : p.lock = some tid
  file : storeFile v = some file
  payload : p.payload decodeAll v = some content
  tmp : ∃ stem unique, tmp = tmpPath stem pid unique

/-- What a thread's phase promises about the directory. -/
def PhaseOk (decodeAll : Bytes → Option Bytes) (dir : Dir) (pid : Nat) (p : Process) (tid : Nat) :
    Phase → Prop
  | .creating v file tmp content => Extracting decodeAll pid tid p v file tmp content
  | .writing v file tmp content written =>
      Extracting decodeAll pid tid p v file tmp content ∧
        dir tmp = some (content.take written)
  | .moving v file tmp content _ =>
      Extracting decodeAll pid tid p v file tmp content ∧ dir tmp = some content
  | _ => True

def ThreadsOk (decodeAll : Bytes → Option Bytes) (dir : Dir) (pid : Nat) (p : Process) : Prop :=
  ∀ tid, PhaseOk decodeAll dir pid p tid (p.threads tid)

/-- Only the lock's holder promises anything. -/
theorem PhaseOk.of_not_holder (h : PhaseOk decodeAll dir pid p tid phase)
    (hlock : p.lock ≠ some tid) : PhaseOk decodeAll dir' pid p' tid phase := by
  cases phase with
  | creating => exact absurd h.lock hlock
  | writing => exact absurd h.1.lock hlock
  | moving => exact absurd h.1.lock hlock
  | _ => trivial

/-- A promise survives whatever leaves the process's temporary files, lock and
payloads alone. -/
theorem PhaseOk.frame (h : PhaseOk decodeAll dir pid p tid phase) (hlock : p'.lock = p.lock)
    (hbytes : p'.versionStoreBytes = p.versionStoreBytes)
    (hdir : ∀ stem unique, dir' (tmpPath stem pid unique) = dir (tmpPath stem pid unique)) :
    PhaseOk decodeAll dir' pid p' tid phase := by
  have hextract : ∀ {v file tmp content}, Extracting decodeAll pid tid p v file tmp content →
      Extracting decodeAll pid tid p' v file tmp content ∧ dir' tmp = dir tmp := by
    rintro v file tmp content ⟨hl, hf, hp, stem, unique, rfl⟩
    exact ⟨⟨hlock.trans hl, hf, by rw [← hp]; simp only [Process.payload, hbytes],
      stem, unique, rfl⟩, hdir stem unique⟩
  cases phase with
  | creating => exact (hextract h).1
  | writing => exact ⟨(hextract h.1).1, (hextract h.1).2.trans h.2⟩
  | moving => exact ⟨(hextract h.1).1, (hextract h.1).2.trans h.2⟩
  | _ => trivial

/-- One thread moves: the others keep their promises when the step leaves lock
and directory alone, or when none of them can hold the lock. -/
theorem ThreadsOk.goto (h : ThreadsOk decodeAll dir pid p) (hthreads : p'.threads = p.threads)
    (hbytes : p'.versionStoreBytes = p.versionStoreBytes)
    (hothers : (p'.lock = p.lock ∧ dir' = dir) ∨ ∀ other, other ≠ tid → p.lock ≠ some other)
    (hphase : PhaseOk decodeAll dir' pid p' tid phase) :
    ThreadsOk decodeAll dir' pid (p'.goto tid phase) := by
  intro other
  by_cases hother : other = tid
  · subst hother
    simp only [Process.goto, update_self]
    exact hphase.frame rfl rfl fun _ _ => rfl
  · simp only [Process.goto, update_of_ne hother, hthreads]
    rcases hothers with ⟨hlock, rfl⟩ | hfree
    · exact (h other).frame hlock hbytes fun _ _ => rfl
    · exact (h other).of_not_holder (hfree other hother)

/-- The lock has one holder. -/
theorem Extracting.alone {v file tmp : String} {content : Bytes}
    (h : Extracting decodeAll pid tid p v file tmp content) (other : Nat) (hother : other ≠ tid) :
    p.lock ≠ some other := by
  rw [h.lock]
  simpa using hother.symm

/-- Every step keeps the promises of its process's threads. -/
theorem ThreadsOk.acts (hI : ThreadsOk decodeAll dir pid p)
    (h : Acts decodeAll pid tid dir p action dir' p') : ThreadsOk decodeAll dir' pid p' := by
  have hmine := hI tid
  cases h with
  | extract hphase hlock hnew hfile hpayload =>
      exact hI.goto rfl rfl (.inr fun _ _ => by simp [hlock])
        ⟨rfl, hfile, hpayload, _, _, rfl⟩
  | create hphase =>
      rw [hphase] at hmine
      exact hI.goto rfl rfl (.inr hmine.alone) ⟨hmine, by simp⟩
  | write hphase =>
      rw [hphase] at hmine
      exact hI.goto rfl rfl (.inr hmine.1.alone) ⟨hmine.1, by simp⟩
  | close hphase hdone =>
      rw [hphase] at hmine
      exact hI.goto rfl rfl (.inr hmine.1.alone)
        ⟨hmine.1, by rw [hmine.2, List.take_of_length_le hdone]⟩
  | fail hphase =>
      have halone : ∀ other, other ≠ tid → p.lock ≠ some other := by
        rcases hphase with ⟨v, file, tmp, content, hphase⟩ | ⟨v, file, tmp, content, k, hphase⟩ <;>
          rw [hphase] at hmine
        · exact hmine.alone
        · exact hmine.1.alone
      exact hI.goto rfl rfl (.inr halone) trivial
  | publish hphase hmoved =>
      -- the temporary file is gone, and with it all that the thread promised
      rw [hphase] at hmine
      exact hI.goto rfl rfl (.inr hmine.1.alone) trivial
  | retry hphase hleft =>
      rw [hphase] at hmine
      exact hI.goto rfl rfl (.inr hmine.1.alone) hmine
  | giveUp hphase hlast =>
      rw [hphase] at hmine
      exact hI.goto rfl rfl (.inr hmine.1.alone) trivial
  | crash => exact fun other => (hI other).frame rfl rfl fun _ _ => rfl
  | _ => exact hI.goto rfl rfl (.inl ⟨rfl, rfl⟩) trivial

/-- A step leaves a store file as it is, or is the rename that makes it the
complete payload of its own process. -/
theorem ThreadsOk.acts_storeFile (hI : ThreadsOk decodeAll dir pid p)
    (h : Acts decodeAll pid tid dir p action dir' p') {v file : String}
    (hfile : storeFile v = some file) :
    dir' file = dir file ∨ (action = .rename true ∧ ∃ tmp content attempts,
      p.threads tid = .moving v file tmp content attempts ∧
      p.payload decodeAll v = some content ∧ dir' file = some content) := by
  have hmine := hI tid
  cases h with
  | create hphase =>
      rw [hphase] at hmine
      obtain ⟨stem, unique, rfl⟩ := hmine.tmp
      exact .inl (update_of_ne (storeFile_ne_tmpPath hfile) _ _)
  | write hphase =>
      rw [hphase] at hmine
      obtain ⟨stem, unique, rfl⟩ := hmine.1.tmp
      exact .inl (update_of_ne (storeFile_ne_tmpPath hfile) _ _)
  | @publish v' file' tmp content attempts moved hphase hmoved =>
      rw [hphase] at hmine
      obtain ⟨hextract, htmp⟩ := hmine
      -- what the rename moves is the complete payload, by the mover's promise
      by_cases hsame : file = file'
      · subst hsame
        obtain rfl := storeFile_inj hfile hextract.file
        exact .inr ⟨rfl, tmp, content, attempts, hphase, hextract.payload,
          by rw [update_self, ← htmp, hmoved]⟩
      · obtain ⟨stem, unique, rfl⟩ := hextract.tmp
        rw [update_of_ne hsame, update_of_ne (storeFile_ne_tmpPath hfile)]
        exact .inl rfl
  | _ => exact .inl rfl

/-- A step touches no temporary file of another process. -/
theorem ThreadsOk.acts_tmpPath (hI : ThreadsOk decodeAll dir pid p)
    (h : Acts decodeAll pid tid dir p action dir' p') {other : Nat} (hother : other ≠ pid)
    (stem : String) (unique : UInt64) :
    dir' (tmpPath stem other unique) = dir (tmpPath stem other unique) := by
  have hmine := hI tid
  have hforeign : ∀ {v file tmp content}, Extracting decodeAll pid tid p v file tmp content →
      tmpPath stem other unique ≠ tmp := by
    rintro v file tmp content ⟨-, -, -, stem', unique', rfl⟩ heq
    exact hother (tmpPath_pid heq)
  cases h with
  | create hphase =>
      rw [hphase] at hmine
      exact update_of_ne (hforeign hmine) _ _
  | write hphase =>
      rw [hphase] at hmine
      exact update_of_ne (hforeign hmine.1) _ _
  | publish hphase hmoved =>
      rw [hphase] at hmine
      rw [update_of_ne (storeFile_ne_tmpPath hmine.1.file).symm, update_of_ne (hforeign hmine.1)]
  | _ => rfl

/-- Every writer is on its own temporary file, and every store file is complete. -/
structure WriterInv (decodeAll : Bytes → Option Bytes) (w : World) : Prop where
  threads : ∀ pid, ThreadsOk decodeAll w.dir pid (w.procs pid)
  complete : ∀ v file content, storeFile v = some file → w.dir file = some content →
    Complete decodeAll w v content

theorem threadsOk_of_fresh (h : p.Fresh) : ThreadsOk decodeAll dir pid p := by
  intro tid
  rw [h.2.2.2 tid]
  trivial

theorem writerInv_init (h : Initial decodeAll w) : WriterInv decodeAll w where
  threads pid := threadsOk_of_fresh (h.fresh pid)
  complete := h.complete

/-- The threads of all processes keep their promises over a step of one. -/
theorem threadsOk_step (hI : ∀ pid, ThreadsOk decodeAll w.dir pid (w.procs pid))
    (h : Acts decodeAll pid tid w.dir (w.procs pid) action dir' p') (other : Nat) :
    ThreadsOk decodeAll dir' other (update w.procs pid p' other) := by
  by_cases hother : other = pid
  · subst hother
    rw [update_self]
    exact (hI other).acts h
  · rw [update_of_ne hother]
    exact fun t => (hI other t).frame rfl rfl ((hI pid).acts_tmpPath h hother)

theorem payload_step (h : Acts decodeAll pid tid w.dir (w.procs pid) action dir' p')
    (other : Nat) (v : String) :
    (update w.procs pid p' other).payload decodeAll v = (w.procs other).payload decodeAll v := by
  by_cases hother : other = pid
  · subst hother
    rw [update_self, Acts.payload h]
  · rw [update_of_ne hother]

theorem writerInv_inductive :
    (store decodeAll).Inductive (fun _ _ => True) (WriterInv decodeAll) := by
  rintro w e w' hI - hstep
  obtain ⟨-, dir', p', hact, rfl⟩ := step_eq_some.mp hstep
  have hacts := acts_of_act hact
  refine ⟨threadsOk_step hI.threads hacts, ?_⟩
  intro v file content hfile hcontent
  rcases (hI.threads e.pid).acts_storeFile hacts hfile with
    hkeep | ⟨-, tmp, own, attempts, -, hpayload, hown⟩
  · obtain ⟨pid, hpid⟩ := hI.complete v file content hfile (hkeep ▸ hcontent)
    exact ⟨pid, by rw [payload_step hacts, hpid]⟩
  · exact ⟨e.pid, by rw [payload_step hacts, hpayload, ← hown]; exact hcontent⟩

/-- **No partial store file.** In every run of any processes from fresh starts,
each version's store file is absent or the complete payload that some process's
release embeds for that version. -/
theorem store_file_complete {w₀ w : World} {es : List Event} (h₀ : Initial decodeAll w₀)
    (hrun : (store decodeAll).run w₀ es = some w) {v file : String}
    (hfile : storeFile v = some file) :
    w.dir file = none ∨
      ∃ content, w.dir file = some content ∧ Complete decodeAll w v content := by
  have hI := writerInv_inductive.reach (writerInv_init h₀) hrun
  cases hcontent : w.dir file with
  | none => exact .inl rfl
  | some content => exact .inr ⟨content, rfl, hI.complete v file content hfile hcontent⟩

/-! ## Every process serves its own catalog -/

/-- Every served connection holds the payload of its own process's release. -/
def ServesOwn (decodeAll : Bytes → Option Bytes) (w : World) : Prop :=
  ∀ pid tid v conn, (w.procs pid).threads tid = .served v conn →
    (w.procs pid).payload decodeAll v = some conn.database

/-- A process is about to read the store file of `v`: it has resolved the path
and has no copy in memory yet. -/
def Process.Awaits (p : Process) (v : String) : Prop :=
  p.alive = true ∧ p.extracted v ≠ none ∧ p.cache v = none

/-- The step renames no payload over a path from which a process with another
payload is about to read. -/
def NotShadowed (decodeAll : Bytes → Option Bytes) (w : World) (e : Event) : Prop :=
  e.action = .rename true → ∀ v file tmp content attempts,
    (w.procs e.pid).threads e.tid = .moving v file tmp content attempts →
    ∀ pid, pid ≠ e.pid → Process.Awaits (w.procs pid) v →
      (w.procs pid).payload decodeAll v = some content

/-- What a thread's phase says about its process's caches. -/
def ReaderPhaseOk (decodeAll : Bytes → Option Bytes) (p : Process) : Phase → Prop
  | .resolved v file | .missed v file => p.extracted v = some file
  | .opened v diskConn => p.cache v ≠ none ∨ p.payload decodeAll v = some diskConn
  | .served v conn => p.payload decodeAll v = some conn.database
  | _ => True

/-- What one process has in memory is its own release's, and so is every store
file it is about to read. -/
structure ReaderOk (decodeAll : Bytes → Option Bytes) (dir : Dir) (p : Process) : Prop where
  extracted : ∀ v file, p.extracted v = some file → storeFile v = some file
  current : ∀ v file, p.extracted v = some file → Process.Awaits p v →
    dir file = p.payload decodeAll v
  cached : ∀ v conn, p.cache v = some conn → p.payload decodeAll v = some conn.database
  phases : ∀ tid, ReaderPhaseOk decodeAll p (p.threads tid)

/-- A reader's phase survives what only adds to its process's caches. -/
theorem ReaderPhaseOk.mono (h : ReaderPhaseOk decodeAll p phase)
    (hextracted : ∀ v file, p.extracted v = some file → p'.extracted v = some file)
    (hcache : ∀ v, p.cache v ≠ none → p'.cache v ≠ none)
    (hbytes : p'.versionStoreBytes = p.versionStoreBytes) : ReaderPhaseOk decodeAll p' phase := by
  have hpayload : ∀ v, p'.payload decodeAll v = p.payload decodeAll v := fun v => by
    simp only [Process.payload, hbytes]
  cases phase with
  | resolved v file => exact hextracted v file h
  | missed v file => exact hextracted v file h
  | opened v diskConn => exact h.imp (hcache v) (hpayload v).trans
  | served v conn => exact (hpayload v).trans h
  | _ => trivial

/-- One thread moves, and what its process has in memory stays. -/
theorem ReaderOk.goto (h : ReaderOk decodeAll dir p) (hextracted : p'.extracted = p.extracted)
    (hcache : p'.cache = p.cache) (hthreads : p'.threads = p.threads)
    (hbytes : p'.versionStoreBytes = p.versionStoreBytes) (halive : p'.alive = p.alive)
    (hphase : ReaderPhaseOk decodeAll p phase)
    (hdir : ∀ v file, storeFile v = some file → dir' file = dir file) :
    ReaderOk decodeAll dir' (p'.goto tid phase) := by
  have hpayload : ∀ v, (p'.goto tid phase).payload decodeAll v = p.payload decodeAll v :=
    fun v => by simp only [Process.payload, Process.goto, hbytes]
  refine ⟨?_, ?_, ?_, ?_⟩
  · intro v file hv
    exact h.extracted v file (hextracted ▸ hv)
  · intro v file hv hawaits
    rw [hpayload, hdir v file (h.extracted v file (hextracted ▸ hv))]
    refine h.current v file (hextracted ▸ hv) ?_
    obtain ⟨hal, hex, hca⟩ := hawaits
    exact ⟨halive ▸ hal, hextracted ▸ hex, hcache ▸ hca⟩
  · intro v conn hv
    rw [hpayload]
    exact h.cached v conn (hcache ▸ hv)
  · intro other
    have hmono : ∀ {phase'}, ReaderPhaseOk decodeAll p phase' →
        ReaderPhaseOk decodeAll (p'.goto tid phase) phase' := fun hp =>
      hp.mono (fun v file hv => hextracted ▸ hv) (fun v hv => hcache ▸ hv) hbytes
    by_cases hother : other = tid
    · subst hother
      simpa only [Process.goto, update_self] using hmono hphase
    · simpa only [Process.goto, update_of_ne hother, hthreads] using hmono (h.phases other)

/-- The rename resolves the path, to a file that holds this release's payload. -/
theorem ReaderOk.publish (h : ReaderOk decodeAll dir p) {v file : String}
    (hfile : storeFile v = some file) (hown : dir' file = p.payload decodeAll v)
    (hdir : ∀ v' file', v' ≠ v → storeFile v' = some file' → dir' file' = dir file') :
    ReaderOk decodeAll dir'
      { p with extracted := update p.extracted v (some file), lock := none } := by
  have hsame : ∀ {file'}, p.extracted v = some file' → file' = file := fun hv =>
    Option.some.inj ((h.extracted v _ hv).symm.trans hfile)
  refine ⟨?_, ?_, h.cached, ?_⟩
  · intro v' file' hv
    by_cases hne : v' = v
    · subst hne
      simpa [hfile] using hv
    · exact h.extracted v' file' (by simpa [update_of_ne hne] using hv)
  · intro v' file' hv hawaits
    by_cases hne : v' = v
    · subst hne
      obtain rfl : file = file' := by simpa using hv
      exact hown
    · have hv' : p.extracted v' = some file' := by simpa [update_of_ne hne] using hv
      rw [hdir v' file' hne (h.extracted v' file' hv')]
      exact h.current v' file' hv' ⟨hawaits.1, by simp [hv'], hawaits.2.2⟩
  · intro tid
    refine (h.phases tid).mono ?_ (fun _ hv => hv) rfl
    intro v' file' hv
    by_cases hne : v' = v
    · subst hne
      simp [hsame hv]
    · simpa [update_of_ne hne] using hv

/-- A connection with this release's payload enters the cache. -/
theorem ReaderOk.copied (h : ReaderOk decodeAll dir p) {v : String} {conn : Connection}
    (hconn : p.payload decodeAll v = some conn.database) (leaked : Nat) :
    ReaderOk decodeAll dir { p with cache := update p.cache v (some conn), leaked } := by
  refine ⟨h.extracted, ?_, ?_, ?_⟩
  · intro v' file hv hawaits
    refine h.current v' file hv ⟨hawaits.1, hawaits.2.1, ?_⟩
    by_cases hne : v' = v
    · subst hne
      simpa using hawaits.2.2
    · simpa [update_of_ne hne] using hawaits.2.2
  · intro v' conn' hv
    by_cases hne : v' = v
    · subst hne
      obtain rfl : conn = conn' := by simpa using hv
      exact hconn
    · exact h.cached v' conn' (by simpa [update_of_ne hne] using hv)
  · intro tid
    refine (h.phases tid).mono (fun _ _ hv => hv) ?_ rfl
    intro v' hv
    by_cases hne : v' = v
    · subst hne
      simp
    · simpa [update_of_ne hne] using hv

/-- Every step keeps its own process's readers right. -/
theorem ReaderOk.acts (hR : ReaderOk decodeAll dir p) (hI : ThreadsOk decodeAll dir pid p)
    (h : Acts decodeAll pid tid dir p action dir' p') (halive : p.alive = true) :
    ReaderOk decodeAll dir' p' := by
  have hmine := hR.phases tid
  have hdir := fun v file (hfile : storeFile v = some file) => hI.acts_storeFile h hfile
  cases h with
  | reuse hphase hlock hfile =>
      exact hR.goto rfl rfl rfl rfl rfl hfile fun _ _ _ => rfl
  | @publish v file tmp content attempts moved hphase hmoved =>
      have hwriter := hI tid
      rw [hphase] at hwriter
      obtain ⟨hextract, htmp⟩ := hwriter
      refine (hR.publish hextract.file ?_ fun v' file' hne hfile' => ?_).goto
        rfl rfl rfl rfl rfl (by simp [ReaderPhaseOk]) fun _ _ _ => rfl
      · rw [update_self, ← hmoved, htmp, hextract.payload]
      · refine (hdir v' file' hfile').resolve_right ?_
        rintro ⟨-, tmp', content', attempts', hphase', -⟩
        rw [hphase] at hphase'
        cases hphase'
        exact hne rfl
  | hit hphase hconn => exact hR.goto rfl rfl rfl rfl rfl (hR.cached _ _ hconn) fun _ _ _ => rfl
  | miss hphase hconn =>
      rw [hphase] at hmine
      exact hR.goto rfl rfl rfl rfl rfl hmine fun _ _ _ => rfl
  | @openStore v file diskConn hphase hdisk =>
      rw [hphase] at hmine
      have hfile : p.extracted v = some file := hmine
      refine hR.goto rfl rfl rfl rfl rfl ?_ fun _ _ _ => rfl
      -- without a copy in memory the process still awaits `v`, and the file is its own
      by_cases hcache : p.cache v = none
      · refine .inr ?_
        rw [← hdisk]
        exact (hR.current v file hfile ⟨halive, by simp [hfile], hcache⟩).symm
      · exact .inl hcache
  | @copy v diskConn conn hphase hconn =>
      rw [hphase] at hmine
      have hown : p.payload decodeAll v = some conn.database := by
        cases hcache : p.cache v with
        | some conn' => simpa [hconn, hcache] using hR.cached v conn' hcache
        | none => simpa [hconn, hcache] using hmine.resolve_left (by simp [hcache])
      exact (hR.copied hown (p.leaked + 1)).goto rfl rfl rfl rfl rfl hown fun _ _ _ => rfl
  | crash =>
      -- a process that has stopped awaits nothing
      exact ⟨hR.extracted, fun _ _ _ hawaits => absurd hawaits.1 (by simp), hR.cached,
        fun other => (hR.phases other).mono (fun _ _ hv => hv) (fun _ hv => hv) rfl⟩
  | _ =>
      exact hR.goto rfl rfl rfl rfl rfl trivial fun v file hfile =>
        (hdir v file hfile).resolve_right (by simp)

/-- The other processes' readers stay right as long as they are not shadowed. -/
theorem ReaderOk.other {e : Event} {q : Process} (hR : ReaderOk decodeAll w.dir q)
    (hI : ThreadsOk decodeAll w.dir e.pid (w.procs e.pid))
    (h : Acts decodeAll e.pid e.tid w.dir (w.procs e.pid) e.action dir' p')
    (hC : e.action = .rename true → ∀ v file tmp content attempts,
      (w.procs e.pid).threads e.tid = .moving v file tmp content attempts →
      Process.Awaits q v → q.payload decodeAll v = some content) :
    ReaderOk decodeAll dir' q := by
  refine ⟨hR.extracted, ?_, hR.cached, hR.phases⟩
  intro v file hv hawaits
  rcases hI.acts_storeFile h (hR.extracted v file hv) with
    hkeep | ⟨hrename, tmp, content, attempts, hphase, -, hnew⟩
  · exact hkeep.trans (hR.current v file hv hawaits)
  · exact hnew.trans (hC hrename v file tmp content attempts hphase hawaits).symm

/-- Writers are on their own temporary files, and readers read their own payloads. -/
structure CatalogInv (decodeAll : Bytes → Option Bytes) (w : World) : Prop where
  threads : ∀ pid, ThreadsOk decodeAll w.dir pid (w.procs pid)
  readers : ∀ pid, ReaderOk decodeAll w.dir (w.procs pid)

theorem catalogInv_init (h : ∀ pid, (w.procs pid).Fresh) : CatalogInv decodeAll w := by
  refine ⟨fun pid => threadsOk_of_fresh (h pid), ?_⟩
  intro pid
  obtain ⟨hextracted, -, hcache, hthreads⟩ := h pid
  refine ⟨?_, ?_, ?_, ?_⟩
  · intro v file hv
    simp [hextracted] at hv
  · intro v file hv
    simp [hextracted] at hv
  · intro v conn hv
    simp [hcache] at hv
  · intro tid
    rw [hthreads tid]
    trivial

theorem catalogInv_inductive :
    (store decodeAll).Inductive (NotShadowed decodeAll) (CatalogInv decodeAll) := by
  intro w e w' hI hC hstep
  obtain ⟨halive, dir', p', hact, rfl⟩ := step_eq_some.mp hstep
  have hacts := acts_of_act hact
  refine ⟨threadsOk_step hI.threads hacts, ?_⟩
  intro pid
  by_cases hpid : pid = e.pid
  · subst hpid
    simpa only [update_self] using (hI.readers e.pid).acts (hI.threads e.pid) hacts halive
  · simp only [update_of_ne hpid]
    exact (hI.readers pid).other (hI.threads e.pid) hacts
      fun hrename v file tmp content attempts hphase =>
        hC hrename v file tmp content attempts hphase pid hpid

theorem CatalogInv.servesOwn (hI : CatalogInv decodeAll w) : ServesOwn decodeAll w := by
  intro pid tid v conn hphase
  have hok := (hI.readers pid).phases tid
  rw [hphase] at hok
  exact hok

/-! ### A shadowed process serves the other release's catalog -/

/-- The phases in which a thread holds the lock. -/
def Phase.Busy : Phase → Prop
  | .creating .. | .writing .. | .moving .. => True
  | _ => False

/-- The lock's holder can still give it back, and some thread has nothing to do. -/
structure Spare (p : Process) : Prop where
  holder : ∀ tid, p.lock = some tid → Phase.Busy (p.threads tid)
  idle : ∃ bound, ∀ tid, bound ≤ tid → p.threads tid = .idle

theorem Spare.goto (h : Spare p) (hthreads : p'.threads = p.threads)
    (hlock : p'.lock = none ∨ (p'.lock = some tid ∧ Phase.Busy phase) ∨
      (p'.lock = p.lock ∧ (Phase.Busy (p.threads tid) → Phase.Busy phase))) :
    Spare (p'.goto tid phase) := by
  obtain ⟨bound, hidle⟩ := h.idle
  refine ⟨?_, max bound (tid + 1), ?_⟩
  · intro other hheld
    have hheld' : p'.lock = some other := hheld
    rcases hlock with hfree | ⟨hmine, hbusy⟩ | ⟨hsame, hbusy⟩
    · simp [hfree] at hheld'
    · obtain rfl : tid = other := by simpa [hmine] using hheld'
      simpa [Process.goto] using hbusy
    · have hwas := h.holder other (hsame ▸ hheld')
      by_cases heq : other = tid
      · subst heq
        simpa [Process.goto] using hbusy hwas
      · simpa [Process.goto, heq, hthreads] using hwas
  · intro other hother
    have hne : other ≠ tid := by omega
    simp only [Process.goto, update_of_ne hne, hthreads]
    exact hidle other (by omega)

theorem Spare.acts (hS : Spare p) (h : Acts decodeAll pid tid dir p action dir' p') :
    Spare p' := by
  cases h with
  | call hphase =>
      refine hS.goto rfl (.inr (.inr ⟨rfl, fun hbusy => ?_⟩))
      rcases hphase with ⟨v, conn, hphase⟩ | hphase <;>
        exact absurd hbusy (by simp [hphase, Phase.Busy])
  | extract => exact hS.goto rfl (.inr (.inl ⟨rfl, trivial⟩))
  | create => exact hS.goto rfl (.inr (.inr ⟨rfl, fun _ => trivial⟩))
  | write => exact hS.goto rfl (.inr (.inr ⟨rfl, fun _ => trivial⟩))
  | close => exact hS.goto rfl (.inr (.inr ⟨rfl, fun _ => trivial⟩))
  | retry => exact hS.goto rfl (.inr (.inr ⟨rfl, fun _ => trivial⟩))
  | fail => exact hS.goto rfl (.inl rfl)
  | publish => exact hS.goto rfl (.inl rfl)
  | giveUp => exact hS.goto rfl (.inl rfl)
  | crash => exact ⟨hS.holder, hS.idle⟩
  | _ hphase =>
      exact hS.goto rfl
        (.inr (.inr ⟨rfl, fun hbusy => absurd hbusy (by simp [hphase, Phase.Busy])⟩))

theorem spare_inductive :
    (store decodeAll).Inductive (fun _ _ => True) (fun w => ∀ pid, Spare (w.procs pid)) := by
  rintro w e w' hS - hstep pid
  obtain ⟨-, dir', p', hact, rfl⟩ := step_eq_some.mp hstep
  by_cases hpid : pid = e.pid
  · subst hpid
    simpa only [update_self] using (hS e.pid).acts (acts_of_act hact)
  · simpa only [update_of_ne hpid] using hS pid

theorem spare_of_fresh (h : p.Fresh) : Spare p :=
  ⟨fun tid hlock => by simp [h.2.1] at hlock, 0, fun tid _ => h.2.2.2 tid⟩

/-- A process as it is once the holder of its lock has failed. -/
def Process.unlocked (p : Process) (tid : Nat) : Process := (p.withLock none).goto tid .failed

variable (decodeAll) in
/-- A step of a live process, as a step of the system. -/
theorem run_act {es : List Event} (halive : (w.procs pid).alive = true) (dir' : Dir) (p' : Process)
    (hact : act decodeAll pid tid w.dir (w.procs pid) action = some (dir', p')) :
    (store decodeAll).run w (⟨pid, tid, action⟩ :: es) =
      (store decodeAll).run { dir := dir', procs := update w.procs pid p' } es := by
  rw [Lts.run_cons, show (store decodeAll).step w ⟨pid, tid, action⟩ = _ from
    step_eq_some.mpr ⟨halive, dir', p', hact, rfl⟩]
  rfl

theorem act_retry {v file tmp : String} {content : Bytes} {attempts : Nat}
    (hphase : p.threads tid = .moving v file tmp content attempts) (hmore : attempts < 5) :
    act decodeAll pid tid dir p (.rename false) =
      some (dir, p.goto tid (.moving v file tmp content (attempts + 1))) := by
  simp only [act, hphase, hmore, if_true]

theorem act_giveUp {v file tmp : String} {content : Bytes} {attempts : Nat}
    (hphase : p.threads tid = .moving v file tmp content attempts) (hlast : ¬ attempts < 5) :
    act decodeAll pid tid dir p (.rename false) = some (dir, Process.unlocked p tid) := by
  simp only [act, hphase, hlast, if_false, Process.unlocked]

variable (decodeAll) in
/-- A rename that keeps failing is given up. -/
theorem run_giveUp {v file tmp : String} {content : Bytes} (attempts : Nat)
    (halive : (w.procs pid).alive = true)
    (hphase : (w.procs pid).threads tid = .moving v file tmp content attempts) :
    ∃ es, (store decodeAll).run w es =
      some { w with procs := update w.procs pid (Process.unlocked (w.procs pid) tid) } := by
  induction hleft : 5 - attempts generalizing w attempts with
  | zero =>
      refine ⟨[⟨pid, tid, .rename false⟩], ?_⟩
      rw [run_act decodeAll halive w.dir _ (act_giveUp hphase (by omega))]
      rfl
  | succ n ih =>
      obtain ⟨es, hrun⟩ := ih (attempts + 1) (w := ⟨w.dir, update w.procs pid
        ((w.procs pid).goto tid (.moving v file tmp content (attempts + 1)))⟩)
        (by simpa [Process.goto] using halive) (by simp [Process.goto]) (by omega)
      refine ⟨⟨pid, tid, .rename false⟩ :: es, ?_⟩
      rw [run_act decodeAll halive _ _ (act_retry hphase (by omega)), hrun]
      simp [Process.unlocked, Process.goto, Process.withLock]

theorem act_fail (hphase : (∃ v file tmp content, p.threads tid = .creating v file tmp content) ∨
    ∃ v file tmp content written, p.threads tid = .writing v file tmp content written) :
    act decodeAll pid tid dir p .fail = some (dir, Process.unlocked p tid) := by
  rcases hphase with ⟨v, file, tmp, content, hphase⟩ | ⟨v, file, tmp, content, written, hphase⟩
  · simp only [act, hphase, Process.unlocked]
  · simp only [act, hphase, Process.unlocked]

variable (decodeAll) in
/-- Whatever the holder of the lock is doing, it can fail. -/
theorem run_unlock (halive : (w.procs pid).alive = true) (hS : Spare (w.procs pid))
    (hlock : (w.procs pid).lock = some tid) :
    ∃ es, (store decodeAll).run w es =
      some { w with procs := update w.procs pid (Process.unlocked (w.procs pid) tid) } := by
  have hbusy := hS.holder tid hlock
  cases hphase : (w.procs pid).threads tid with
  | creating v file tmp content =>
      refine ⟨[⟨pid, tid, .fail⟩], ?_⟩
      rw [run_act decodeAll halive w.dir _ (act_fail (.inl ⟨v, file, tmp, content, hphase⟩))]
      rfl
  | writing v file tmp content written =>
      refine ⟨[⟨pid, tid, .fail⟩], ?_⟩
      rw [run_act decodeAll halive w.dir _
        (act_fail (.inr ⟨v, file, tmp, content, written, hphase⟩))]
      rfl
  | moving v file tmp content attempts => exact run_giveUp decodeAll attempts halive hphase
  | _ => simp [hphase, Phase.Busy] at hbusy

/-- A process as it is once a thread has copied a database and serves it. -/
def Process.serving (p : Process) (tid : Nat) (v : String) (database : Bytes) : Process :=
  { p with cache := update p.cache v (some ⟨p.leaked, database⟩), leaked := p.leaked + 1 }.goto
    tid (.served v ⟨p.leaked, database⟩)

variable (decodeAll) in
/-- An idle thread of a process that awaits `v` can serve what the store file holds. -/
theorem run_serve {v file : String} {content : Bytes} (halive : (w.procs pid).alive = true)
    (hlock : (w.procs pid).lock = none) (hidle : (w.procs pid).threads tid = .idle)
    (hextracted : (w.procs pid).extracted v = some file) (hcache : (w.procs pid).cache v = none)
    (hdisk : w.dir file = some content) :
    ∃ es, (store decodeAll).run w es =
      some { w with
        procs := update w.procs pid (Process.serving (w.procs pid) tid v content) } := by
  have hresolve : act decodeAll pid tid w.dir (w.procs pid) (.resolve v true) =
      some (w.dir, (w.procs pid).goto tid (.resolved v file)) := by
    simp [act, hidle, hlock, resolveStorePath, hextracted]
  refine ⟨[⟨pid, tid, .resolve v true⟩, ⟨pid, tid, .lookup⟩, ⟨pid, tid, .openStore true⟩,
    ⟨pid, tid, .copy true⟩], ?_⟩
  rw [run_act decodeAll halive _ _ hresolve]
  rw [run_act decodeAll (by simpa [Process.goto] using halive) w.dir
    ((w.procs pid).goto tid (.missed v file)) (by simp [act, Process.goto, hcache])]
  rw [run_act decodeAll (by simpa [Process.goto] using halive) w.dir
    ((w.procs pid).goto tid (.opened v content)) (by simp [act, Process.goto, hdisk])]
  rw [run_act decodeAll (by simpa [Process.goto] using halive) w.dir
    (Process.serving (w.procs pid) tid v content)
    (by simp [act, Process.goto, Process.serving, hcache])]
  simp

variable (decodeAll) in
/-- A process that awaits `v` can serve what the store file holds, whatever its
threads are doing. -/
theorem run_serve_awaits {v file : String} {content : Bytes} (hS : Spare (w.procs pid))
    (hawaits : Process.Awaits (w.procs pid) v) (hextracted : (w.procs pid).extracted v = some file)
    (hdisk : w.dir file = some content) :
    ∃ es w' tid conn, (store decodeAll).run w es = some w' ∧
      (w'.procs pid).threads tid = .served v conn ∧ conn.database = content ∧
      (w'.procs pid).versionStoreBytes = (w.procs pid).versionStoreBytes := by
  obtain ⟨halive, -, hcache⟩ := hawaits
  obtain ⟨bound, hidle⟩ := hS.idle
  cases hlock : (w.procs pid).lock with
  | none =>
      obtain ⟨es, hrun⟩ := run_serve decodeAll halive hlock (hidle bound (Nat.le_refl _))
        hextracted hcache hdisk
      exact ⟨es, _, bound, ⟨(w.procs pid).leaked, content⟩, hrun,
        by simp [Process.serving, Process.goto], rfl, by simp [Process.serving, Process.goto]⟩
  | some holder =>
      -- the holder's extraction fails first, then a thread that has not run serves
      obtain ⟨es₁, hrun₁⟩ := run_unlock decodeAll halive hS hlock
      let other := max bound (holder + 1)
      let p₁ := Process.unlocked (w.procs pid) holder
      let w₁ : World := { w with procs := update w.procs pid p₁ }
      have hp₁ : w₁.procs pid = p₁ := update_self _ _ _
      have hextracted₁ : (w₁.procs pid).extracted v = some file := by rw [hp₁]; exact hextracted
      have hcache₁ : (w₁.procs pid).cache v = none := by rw [hp₁]; exact hcache
      have hidle₁ : (w₁.procs pid).threads other = .idle := by
        have hne : other ≠ holder := by omega
        rw [hp₁]
        simpa [p₁, Process.unlocked, Process.goto, Process.withLock, hne] using
          hidle other (Nat.le_max_left _ _)
      obtain ⟨es₂, hrun₂⟩ := run_serve (w := w₁) decodeAll (hp₁ ▸ halive) (by rw [hp₁]; rfl) hidle₁
        hextracted₁ hcache₁ hdisk
      exact ⟨es₁ ++ es₂, _, other, ⟨(w.procs pid).leaked, content⟩,
        Lts.run_append_eq_some.mpr ⟨_, hrun₁, hrun₂⟩,
        by simp [hp₁, p₁, Process.serving, Process.goto, Process.unlocked, Process.withLock], rfl,
        by simp [hp₁, p₁, Process.serving, Process.goto, Process.unlocked, Process.withLock]⟩

/-- After a rename that shadows another process's path, that process can go on to
serve the other release's payload. -/
theorem not_servesOwn_of_shadowed {e : Event} (hS : ∀ pid, Spare (w.procs pid))
    (hI : CatalogInv decodeAll w) (hstep : Store.step decodeAll w e = some w')
    (hC : ¬ NotShadowed decodeAll w e) :
    ∃ fs w'', (store decodeAll).run w' fs = some w'' ∧ ¬ ServesOwn decodeAll w'' := by
  simp only [NotShadowed, Classical.not_imp, not_forall] at hC
  obtain ⟨hrename, v, file, tmp, content, attempts, hphase, q, hq, hawaits, hother⟩ := hC
  obtain ⟨hextract, htmp⟩ : Extracting decodeAll e.pid e.tid (w.procs e.pid) v file tmp content ∧
      w.dir tmp = some content := by
    simpa [hphase, PhaseOk] using hI.threads e.pid e.tid
  obtain ⟨file', hextracted⟩ := Option.ne_none_iff_exists'.mp hawaits.2.1
  obtain rfl : file' = file :=
    Option.some.inj (((hI.readers q).extracted v file' hextracted).symm.trans hextract.file)
  obtain ⟨-, dir', p', hact, rfl⟩ := step_eq_some.mp hstep
  -- the other process has resolved the very path that the rename wrote
  have hdisk : dir' file' = some content := by
    simp only [hrename, act, hphase, htmp, Option.some.injEq, Prod.mk.injEq] at hact
    simp [← hact.1]
  have hsame : update w.procs e.pid p' q = w.procs q := update_of_ne hq _ _
  have hS' : Spare (update w.procs e.pid p' q) := hsame ▸ hS q
  have hawaits' : Process.Awaits (update w.procs e.pid p' q) v := hsame ▸ hawaits
  have hextracted' : (update w.procs e.pid p' q).extracted v = some file' := hsame ▸ hextracted
  obtain ⟨fs, w'', tid, conn, hrun, hserved, hconn, hbytes⟩ := run_serve_awaits
    (w := ⟨dir', update w.procs e.pid p'⟩) decodeAll hS' hawaits' hextracted' hdisk
  refine ⟨fs, w'', hrun, fun hown => hother ?_⟩
  have := hown q tid v conn hserved
  simpa [Process.payload, hbytes, hq, hconn] using this

/-- **Own catalog.** In every run without shadowing, whatever the directory held
before, each process serves its own release's payload; and the condition is
exact: after a shadowing rename some continuation serves another release's. -/
theorem own_catalog {w₀ : World} (h₀ : ∀ pid, (w₀.procs pid).Fresh) :
    (∀ es w, (store decodeAll).Along (NotShadowed decodeAll) w₀ es →
      (store decodeAll).run w₀ es = some w → ServesOwn decodeAll w) ∧
    (∀ es e w w', (store decodeAll).Along (NotShadowed decodeAll) w₀ es →
      (store decodeAll).run w₀ es = some w → Store.step decodeAll w e = some w' →
      ¬ NotShadowed decodeAll w e →
      ∃ fs w'', (store decodeAll).run w' fs = some w'' ∧ ¬ ServesOwn decodeAll w'') := by
  have hinit : CatalogInv decodeAll w₀ := catalogInv_init h₀
  constructor
  · intro es w hC hrun
    exact (catalogInv_inductive.run hinit hC hrun).servesOwn
  · intro es e w w' hC hrun hstep hshadow
    exact not_servesOwn_of_shadowed
      (spare_inductive.reach (fun pid => spare_of_fresh (h₀ pid)) hrun)
      (catalogInv_inductive.run hinit hC hrun) hstep hshadow

/-- A process of the release that embeds `database` for the first version. -/
def release (database : Bytes) : Process where
  versionStoreBytes v := if v = "general-1.2.0" then some database else none
  alive := true
  extracted _ := none
  lock := none
  unique := 0
  cache _ := none
  leaked := 0
  threads _ := .idle

/-- An installation that is being upgraded: process 0 is of the old release. -/
def upgrade : World where
  dir _ := none
  procs pid := if pid = 0 then release [1] else release [2]

theorem upgrade_fresh (pid : Nat) : (upgrade.procs pid).Fresh := by
  simp only [upgrade]
  split <;> exact ⟨fun _ => rfl, rfl, fun _ => rfl, fun _ => rfl⟩

def extraction (pid : Nat) : List Event :=
  [⟨pid, 0, .resolve "general-1.2.0" true⟩, ⟨pid, 0, .create⟩, ⟨pid, 0, .write 1⟩,
    ⟨pid, 0, .close⟩, ⟨pid, 0, .rename true⟩]

def reading (pid : Nat) : List Event :=
  [⟨pid, 0, .lookup⟩, ⟨pid, 0, .openStore true⟩, ⟨pid, 0, .copy true⟩]

/-- Without the condition the promise fails: the new release extracts between
the old one's extraction and its read, and the old one serves the new payload. -/
theorem own_catalog_fails : ¬ ∀ (w₀ w : World) (es : List Event),
    (∀ pid, (w₀.procs pid).Fresh) → (store some).run w₀ es = some w → ServesOwn some w := by
  intro h
  have hown := h upgrade _ (extraction 0 ++ extraction 1 ++ reading 0) upgrade_fresh rfl
  exact absurd (hown 0 0 "general-1.2.0" ⟨0, [2]⟩ rfl) (by decide)

/-- Read before the new release extracts, each process serves its own payload. -/
theorem own_catalog_upgrade : ∃ w,
    (store some).run upgrade (extraction 0 ++ reading 0 ++ extraction 1 ++ reading 1) = some w ∧
    ServesOwn some w := by
  refine ⟨_, rfl, (own_catalog upgrade_fresh).1
    (extraction 0 ++ reading 0 ++ extraction 1 ++ reading 1) _ ?_ rfl⟩
  -- only the two renames can shadow anything
  have hquiet : ∀ {w : World} {es : List Event}, (∀ e ∈ es, e.action ≠ .rename true) →
      (store some).Along (NotShadowed some) w es := fun h =>
    Lts.along_of_forall_mem fun e he _ hrename => absurd hrename (h e he)
  show (store some).Along (NotShadowed some) upgrade
    ((extraction 0).dropLast ++ ⟨0, 0, .rename true⟩ :: ((reading 0 ++ (extraction 1).dropLast) ++
      ⟨1, 0, .rename true⟩ :: reading 1))
  refine Lts.along_append.mpr ⟨hquiet (by decide), fun w₁ h₁ => ?_⟩
  obtain rfl := Option.some.inj h₁
  refine .cons ?old rfl (Lts.along_append.mpr ⟨hquiet (by decide), ?new⟩)
  case old =>
    rintro - v file tmp content attempts - pid hpid ⟨-, hextracted, -⟩
    refine absurd ?_ hextracted
    have hpid' : pid ≠ 0 := hpid
    simp [hpid', upgrade, release]
  case new =>
    intro w₂ h₂
    obtain rfl := Option.some.inj h₂
    refine .cons ?_ rfl (hquiet (by decide))
    rintro - v file tmp content attempts hphase pid hpid ⟨-, hextracted, hcache⟩
    have hpid' : pid ≠ 1 := hpid
    by_cases hzero : pid = 0
    · -- the old release has its copy in memory
      subst hzero
      cases hphase
      cases hcache
    · refine absurd ?_ hextracted
      simp [hpid', hzero, upgrade, release]

/-- Two releases extract at once, and the store file is complete. -/
theorem store_file_complete_upgrade : ∃ w,
    (store some).run upgrade (extraction 0 ++ extraction 1) = some w ∧
    (w.dir "mcp_store.db" = none ∨
      ∃ content, w.dir "mcp_store.db" = some content ∧ Complete some w "general-1.2.0" content) :=
  have hinit : Initial some upgrade := ⟨upgrade_fresh, fun _ _ _ _ h => by simp [upgrade] at h⟩
  have hrun : (store some).run upgrade (extraction 0 ++ extraction 1) = some _ := rfl
  ⟨_, hrun, store_file_complete hinit hrun rfl⟩

end TopdeskMcp.Theorems.Store
