import TopdeskMcp.Lib.Trace
import TopdeskMcp.Lib.Utf8
import Mathlib.Data.List.Basic
import Mathlib.Data.List.Nodup
import Std.Data.String.ToNat

/-!
# Extracting and opening the embedded store (`data/store.rs`)

Every release embeds one compressed database per `api_version`.
`resolve_store_path` decompresses it into a file of the shared temp directory,
through a temporary name and a rename; `cached_store_connection` then opens that
path and copies the file into memory.

The model is a transition system of any number of processes, each with any
number of threads, over one directory. One step is one system call or one
locked section:

* `resolve` takes the `EXTRACTED` lock and answers from the path cache or starts
  an extraction, which keeps the lock;
* `create`, `write` and `close` are the parts of `std::fs::write`, `fail` is its
  failure at any of them, and `rename` one attempt of the retry loop;
* `lookup`, `openStore` and `copy` are the parts of `cached_in_memory_connection`;
* `crash` stops a process for good, wherever its threads are.

An opened file is its content at the time of the open: a rename over the path
gives the name to another file and leaves the opened one as it is.
-/

namespace TopdeskMcp

/-- `VERSION_STORE_FILES`: each `api_version` with the file name of its store. -/
def versionStoreFiles : List (String × String) :=
  [("general-1.2.0", "mcp_store.db"),
   ("incident-4.2.6", "mcp_store_vincident-4.2.6.db"),
   ("knowledge-base-before-explorer-migration",
     "mcp_store_vknowledge-base-before-explorer-migration.db"),
   ("knowledge-base-after-explorer-migration",
     "mcp_store_vknowledge-base-after-explorer-migration.db"),
   ("knowledgebase-graphql-1.0.0", "mcp_store_vknowledgebase-graphql-1.0.0.db"),
   ("reservations-2.0.0", "mcp_store_vreservations-2.0.0.db"),
   ("services-1.3.7", "mcp_store_vservices-1.3.7.db"),
   ("change-1.4.0", "mcp_store_vchange-1.4.0.db"),
   ("assets-1.91.1", "mcp_store_vassets-1.91.1.db"),
   ("operations-management-1.10.0", "mcp_store_voperations-management-1.10.0.db"),
   ("visitors-2.0.0", "mcp_store_vvisitors-2.0.0.db"),
   ("supporting-files-2.7.11", "mcp_store_vsupporting-files-2.7.11.db"),
   ("access-roles-saas", "mcp_store_vaccess-roles-saas.db"),
   ("access-roles-va-release-1-2026", "mcp_store_vaccess-roles-va-release-1-2026.db"),
   ("lookandfeel-1.0.0", "mcp_store_vlookandfeel-1.0.0.db"),
   ("task-notifications-1.0.0", "mcp_store_vtask-notifications-1.0.0.db"),
   ("settings-1.1.0", "mcp_store_vsettings-1.1.0.db"),
   ("custom-action-support-saas", "mcp_store_vcustom-action-support-saas.db"),
   ("custom-action-support-va-release-1-2023-or-newer",
     "mcp_store_vcustom-action-support-va-release-1-2023-or-newer.db")]

/-- The file name of an `api_version`: the first entry with its label. -/
def storeFile (apiVersion : String) : Option String :=
  (versionStoreFiles.find? fun entry => entry.1 == apiVersion).map (·.2)

/-- `VERSION_STORE_BYTES`: each `api_version` with the file that is embedded for it. -/
def versionStoreBytesFiles : List (String × String) :=
  [("general-1.2.0", "mcp_store.db.zst"),
   ("incident-4.2.6", "mcp_store_vincident-4.2.6.db.zst"),
   ("knowledge-base-before-explorer-migration",
     "mcp_store_vknowledge-base-before-explorer-migration.db.zst"),
   ("knowledge-base-after-explorer-migration",
     "mcp_store_vknowledge-base-after-explorer-migration.db.zst"),
   ("knowledgebase-graphql-1.0.0", "mcp_store_vknowledgebase-graphql-1.0.0.db.zst"),
   ("reservations-2.0.0", "mcp_store_vreservations-2.0.0.db.zst"),
   ("services-1.3.7", "mcp_store_vservices-1.3.7.db.zst"),
   ("change-1.4.0", "mcp_store_vchange-1.4.0.db.zst"),
   ("assets-1.91.1", "mcp_store_vassets-1.91.1.db.zst"),
   ("operations-management-1.10.0", "mcp_store_voperations-management-1.10.0.db.zst"),
   ("visitors-2.0.0", "mcp_store_vvisitors-2.0.0.db.zst"),
   ("supporting-files-2.7.11", "mcp_store_vsupporting-files-2.7.11.db.zst"),
   ("access-roles-saas", "mcp_store_vaccess-roles-saas.db.zst"),
   ("access-roles-va-release-1-2026", "mcp_store_vaccess-roles-va-release-1-2026.db.zst"),
   ("lookandfeel-1.0.0", "mcp_store_vlookandfeel-1.0.0.db.zst"),
   ("task-notifications-1.0.0", "mcp_store_vtask-notifications-1.0.0.db.zst"),
   ("settings-1.1.0", "mcp_store_vsettings-1.1.0.db.zst"),
   ("custom-action-support-saas", "mcp_store_vcustom-action-support-saas.db.zst"),
   ("custom-action-support-va-release-1-2023-or-newer",
     "mcp_store_vcustom-action-support-va-release-1-2023-or-newer.db.zst")]

/-- The embedded file of an `api_version`: the first entry with its label. -/
def embeddedFile (apiVersion : String) : Option String :=
  (versionStoreBytesFiles.find? fun entry => entry.1 == apiVersion).map (·.2)

/-- The sibling file an extraction writes before the rename. -/
def tmpPath (file : String) (pid : Nat) (unique : UInt64) : String :=
  file ++ "." ++ pid.repr ++ "." ++ unique.toNat.repr ++ ".tmp"

namespace Store

/-- A leaked in-memory connection: its identity and the database it holds. -/
structure Connection where
  id : Nat
  database : Bytes
  deriving DecidableEq

/-- Where a thread is in `cached_store_connection`. In `creating`, `writing` and
`moving` it holds the `EXTRACTED` lock. -/
inductive Phase where
  | idle
  | creating (apiVersion file tmp : String) (decompressed : Bytes)
  | writing (apiVersion file tmp : String) (decompressed : Bytes) (written : Nat)
  | moving (apiVersion file tmp : String) (decompressed : Bytes) (renameAttempts : Nat)
  | resolved (apiVersion file : String)
  | missed (apiVersion file : String)
  | opened (apiVersion : String) (diskConn : Bytes)
  | served (apiVersion : String) (conn : Connection)
  | failed
  deriving DecidableEq

/-- A process: its release's payloads (`VERSION_STORE_BYTES`), its statics
`EXTRACTED` (with the thread that holds its lock), `UNIQUE` and `CACHE`, and its
threads. -/
structure Process where
  versionStoreBytes : String → Option Bytes
  alive : Bool
  extracted : String → Option String
  lock : Option Nat
  unique : UInt64
  cache : String → Option Connection
  leaked : Nat
  threads : Nat → Phase

/-- The shared temp directory. -/
abbrev Dir := String → Option Bytes

structure World where
  dir : Dir
  procs : Nat → Process

/-- One step of one thread. -/
inductive Action where
  | call
  | resolve (apiVersion : String) (dirCreated : Bool)
  | create
  | write (count : Nat)
  | close
  | fail
  | rename (ok : Bool)
  | lookup
  | openStore (ok : Bool)
  | copy (ok : Bool)
  | crash
  deriving DecidableEq

structure Event where
  pid : Nat
  tid : Nat
  action : Action

namespace Process

/-- What an `api_version` decompresses to in this process's release. -/
def payload (decodeAll : Bytes → Option Bytes) (p : Process) (apiVersion : String) :
    Option Bytes :=
  (p.versionStoreBytes apiVersion).bind decodeAll

def goto (p : Process) (tid : Nat) (phase : Phase) : Process :=
  { p with threads := Function.update p.threads tid phase }

def withLock (p : Process) (lock : Option Nat) : Process := { p with lock }

end Process

/-- `resolve_store_path` up to the write: the cached path, an early error, or
the start of an extraction under a fresh temporary name. -/
def resolveStorePath (decodeAll : Bytes → Option Bytes) (pid tid : Nat) (p : Process)
    (apiVersion : String) (dirCreated : Bool) : Process :=
  match p.extracted apiVersion with
  | some path => p.goto tid (.resolved apiVersion path)
  | none =>
      match storeFile apiVersion, p.payload decodeAll apiVersion with
      | some file, some decompressed =>
          if dirCreated then
            -- the lock is kept until the rename has succeeded or the extraction failed
            ({ p with unique := p.unique + 1, lock := some tid }).goto tid
              (.creating apiVersion file (tmpPath file pid p.unique) decompressed)
          else p.goto tid .failed
      | _, _ => p.goto tid .failed

/-- One thread's step on the directory and its own process; `none` when the
thread is not at such a step. -/
def act (decodeAll : Bytes → Option Bytes) (pid tid : Nat) (dir : Dir) (p : Process) :
    Action → Option (Dir × Process)
  | .call =>
      match p.threads tid with
      | .served _ _ | .failed => some (dir, p.goto tid .idle)
      | _ => none
  | .resolve apiVersion dirCreated =>
      match p.threads tid, p.lock with
      | .idle, none => some (dir, resolveStorePath decodeAll pid tid p apiVersion dirCreated)
      | _, _ => none
  | .create =>
      match p.threads tid with
      | .creating apiVersion file tmp decompressed =>
          -- a file of that name is emptied
          some (Function.update dir tmp (some []),
            p.goto tid (.writing apiVersion file tmp decompressed 0))
      | _ => none
  | .write count =>
      match p.threads tid with
      | .writing apiVersion file tmp decompressed written =>
          some (Function.update dir tmp (some (decompressed.take (written + count))),
            p.goto tid (.writing apiVersion file tmp decompressed (written + count)))
      | _ => none
  | .close =>
      match p.threads tid with
      | .writing apiVersion file tmp decompressed written =>
          if decompressed.length ≤ written then
            some (dir, p.goto tid (.moving apiVersion file tmp decompressed 0))
          else none
      | _ => none
  | .fail =>
      match p.threads tid with
      | .creating .. | .writing .. => some (dir, (p.withLock none).goto tid .failed)
      | _ => none
  | .rename true =>
      match p.threads tid with
      | .moving apiVersion file tmp _ _ =>
          match dir tmp with
          | some content =>
              -- one step: nobody sees the destination without a file in between
              some (Function.update (Function.update dir tmp none) file (some content),
                ({ p with extracted := Function.update p.extracted apiVersion (some file),
                          lock := none }).goto tid (.resolved apiVersion file))
          | none => none
      | _ => none
  | .rename false =>
      match p.threads tid with
      | .moving apiVersion file tmp decompressed renameAttempts =>
          if renameAttempts < 5 then
            -- the backoff between two attempts is any number of steps of other threads
            some (dir, p.goto tid
              (.moving apiVersion file tmp decompressed (renameAttempts + 1)))
          else some (dir, (p.withLock none).goto tid .failed)
      | _ => none
  | .lookup =>
      match p.threads tid with
      | .resolved apiVersion file =>
          match p.cache apiVersion with
          | some conn => some (dir, p.goto tid (.served apiVersion conn))
          | none => some (dir, p.goto tid (.missed apiVersion file))
      | _ => none
  | .openStore ok =>
      match p.threads tid with
      | .missed apiVersion file =>
          match ok, dir file with
          | true, some diskConn => some (dir, p.goto tid (.opened apiVersion diskConn))
          | _, _ => some (dir, p.goto tid .failed)
      | _ => none
  | .copy ok =>
      match p.threads tid with
      | .opened apiVersion diskConn =>
          if ok then
            -- `entry(cache_key).or_insert(leaked)`
            let conn := (p.cache apiVersion).getD { id := p.leaked, database := diskConn }
            some (dir, ({ p with cache := Function.update p.cache apiVersion (some conn),
                                 leaked := p.leaked + 1 }).goto tid (.served apiVersion conn))
          else some (dir, p.goto tid .failed)
      | _ => none
  | .crash => some (dir, { p with alive := false })

/-- All that a step of one thread can do: the phase it is taken in, what it
requires, and what it leaves. -/
inductive Acts (decodeAll : Bytes → Option Bytes) (pid tid : Nat) (dir : Dir) (p : Process) :
    Action → Dir → Process → Prop
  | call (hphase : (∃ v conn, p.threads tid = .served v conn) ∨ p.threads tid = .failed) :
      Acts decodeAll pid tid dir p .call dir (p.goto tid .idle)
  | reuse {v file dirCreated} (hphase : p.threads tid = .idle) (hlock : p.lock = none)
      (hfile : p.extracted v = some file) :
      Acts decodeAll pid tid dir p (.resolve v dirCreated) dir (p.goto tid (.resolved v file))
  | refuse {v dirCreated} (hphase : p.threads tid = .idle) (hlock : p.lock = none) :
      Acts decodeAll pid tid dir p (.resolve v dirCreated) dir (p.goto tid .failed)
  | extract {v file content} (hphase : p.threads tid = .idle) (hlock : p.lock = none)
      (hnew : p.extracted v = none) (hfile : storeFile v = some file)
      (hpayload : p.payload decodeAll v = some content) :
      Acts decodeAll pid tid dir p (.resolve v true) dir
        (({ p with unique := p.unique + 1, lock := some tid }).goto tid
          (.creating v file (tmpPath file pid p.unique) content))
  | create {v file tmp content} (hphase : p.threads tid = .creating v file tmp content) :
      Acts decodeAll pid tid dir p .create (Function.update dir tmp (some []))
        (p.goto tid (.writing v file tmp content 0))
  | write {v file tmp content k count} (hphase : p.threads tid = .writing v file tmp content k) :
      Acts decodeAll pid tid dir p (.write count)
        (Function.update dir tmp (some (content.take (k + count))))
        (p.goto tid (.writing v file tmp content (k + count)))
  | close {v file tmp content k} (hphase : p.threads tid = .writing v file tmp content k)
      (hdone : content.length ≤ k) :
      Acts decodeAll pid tid dir p .close dir (p.goto tid (.moving v file tmp content 0))
  | fail (hphase : (∃ v file tmp content, p.threads tid = .creating v file tmp content) ∨
        ∃ v file tmp content k, p.threads tid = .writing v file tmp content k) :
      Acts decodeAll pid tid dir p .fail dir ((p.withLock none).goto tid .failed)
  | publish {v file tmp content attempts moved}
      (hphase : p.threads tid = .moving v file tmp content attempts)
      (hmoved : dir tmp = some moved) :
      Acts decodeAll pid tid dir p (.rename true)
        (Function.update (Function.update dir tmp none) file (some moved))
        (({ p with extracted := Function.update p.extracted v (some file),
                   lock := none }).goto tid (.resolved v file))
  | retry {v file tmp content attempts}
      (hphase : p.threads tid = .moving v file tmp content attempts) (hleft : attempts < 5) :
      Acts decodeAll pid tid dir p (.rename false) dir
        (p.goto tid (.moving v file tmp content (attempts + 1)))
  | giveUp {v file tmp content attempts}
      (hphase : p.threads tid = .moving v file tmp content attempts) (hlast : 5 ≤ attempts) :
      Acts decodeAll pid tid dir p (.rename false) dir ((p.withLock none).goto tid .failed)
  | hit {v file conn} (hphase : p.threads tid = .resolved v file) (hconn : p.cache v = some conn) :
      Acts decodeAll pid tid dir p .lookup dir (p.goto tid (.served v conn))
  | miss {v file} (hphase : p.threads tid = .resolved v file) (hconn : p.cache v = none) :
      Acts decodeAll pid tid dir p .lookup dir (p.goto tid (.missed v file))
  | openStore {v file diskConn} (hphase : p.threads tid = .missed v file)
      (hdisk : dir file = some diskConn) :
      Acts decodeAll pid tid dir p (.openStore true) dir (p.goto tid (.opened v diskConn))
  | openFailed {v file ok} (hphase : p.threads tid = .missed v file) :
      Acts decodeAll pid tid dir p (.openStore ok) dir (p.goto tid .failed)
  | copy {v diskConn conn} (hphase : p.threads tid = .opened v diskConn)
      (hconn : conn = (p.cache v).getD { id := p.leaked, database := diskConn }) :
      Acts decodeAll pid tid dir p (.copy true) dir
        (({ p with cache := Function.update p.cache v (some conn),
                   leaked := p.leaked + 1 }).goto tid (.served v conn))
  | copyFailed {v diskConn} (hphase : p.threads tid = .opened v diskConn) :
      Acts decodeAll pid tid dir p (.copy false) dir (p.goto tid .failed)
  | crash : Acts decodeAll pid tid dir p .crash dir { p with alive := false }

/-- Inversion of `act`. -/
theorem acts_of_act {decodeAll : Bytes → Option Bytes} {pid tid : Nat} {dir dir' : Dir}
    {p p' : Process} {action : Action}
    (h : act decodeAll pid tid dir p action = some (dir', p')) :
    Acts decodeAll pid tid dir p action dir' p' := by
  cases action with
  | call =>
      simp only [act] at h
      split at h <;> cases h
      · exact .call (.inl ⟨_, _, ‹_›⟩)
      · exact .call (.inr ‹_›)
  | resolve v dirCreated =>
      simp only [act] at h
      split at h <;> cases h
      rename_i hphase hlock
      unfold resolveStorePath
      split
      · exact .reuse hphase hlock ‹_›
      · split
        · split
          · rename_i hdir
            subst hdir
            exact .extract hphase hlock ‹_› ‹_› ‹_›
          · exact .refuse hphase hlock
        · exact .refuse hphase hlock
  | create =>
      simp only [act] at h
      split at h <;> cases h
      exact .create ‹_›
  | write count =>
      simp only [act] at h
      split at h <;> cases h
      exact .write ‹_›
  | close =>
      simp only [act] at h
      split at h
      · split at h <;> cases h
        exact .close ‹_› ‹_›
      · cases h
  | fail =>
      simp only [act] at h
      split at h <;> cases h
      · exact .fail (.inl ⟨_, _, _, _, ‹_›⟩)
      · exact .fail (.inr ⟨_, _, _, _, _, ‹_›⟩)
  | rename ok =>
      cases ok with
      | true =>
          simp only [act] at h
          split at h
          · split at h <;> cases h
            exact .publish ‹_› ‹_›
          · cases h
      | false =>
          simp only [act] at h
          split at h
          · split at h <;> cases h
            · exact .retry ‹_› ‹_›
            · exact .giveUp ‹_› (Nat.le_of_not_lt ‹_›)
          · cases h
  | lookup =>
      simp only [act] at h
      split at h
      · split at h <;> cases h
        · exact .hit ‹_› ‹_›
        · exact .miss ‹_› ‹_›
      · cases h
  | openStore ok =>
      simp only [act] at h
      split at h
      · split at h <;> cases h
        · exact .openStore ‹_› ‹_›
        · exact .openFailed ‹_›
      · cases h
  | copy ok =>
      simp only [act] at h
      split at h
      · split at h <;> cases h
        · rename_i hok
          subst hok
          exact .copy ‹_› rfl
        · rename_i hok
          obtain rfl : ok = false := by simpa using hok
          exact .copyFailed ‹_›
      · cases h
  | crash => cases h; exact .crash

/-- A step of one thread of a live process; the other processes do not move. -/
def step (decodeAll : Bytes → Option Bytes) (w : World) (e : Event) : Option World :=
  if (w.procs e.pid).alive then
    (act decodeAll e.pid e.tid w.dir (w.procs e.pid) e.action).map fun r =>
      { dir := r.1, procs := Function.update w.procs e.pid r.2 }
  else none

/-- A process that has just started. -/
def Process.Fresh (p : Process) : Prop :=
  (∀ v, p.extracted v = none) ∧ p.lock = none ∧ (∀ v, p.cache v = none) ∧
    ∀ tid, p.threads tid = .idle

/-- The complete decompressed payload for `apiVersion` in some process's binary. -/
def Complete (decodeAll : Bytes → Option Bytes) (w : World) (apiVersion : String)
    (content : Bytes) : Prop :=
  ∃ pid, (w.procs pid).payload decodeAll apiVersion = some content

/-- Fresh processes over a directory in which each store file is absent or
complete; temporary files of earlier runs may lie around. -/
structure Initial (decodeAll : Bytes → Option Bytes) (w : World) : Prop where
  fresh : ∀ pid, (w.procs pid).Fresh
  complete : ∀ v file content, storeFile v = some file → w.dir file = some content →
    Complete decodeAll w v content

end Store

/-- Any number of processes, with any number of threads, sharing one temp directory. -/
def store (decodeAll : Bytes → Option Bytes) : Trace.Lts Store.World Store.Event where
  init := Store.Initial decodeAll
  step := Store.step decodeAll

/-! ## File names -/

/-- Two lists that agree up to the last separator agree on both sides of it. -/
theorem append_cons_inj_of_notMem {α : Type} {a b c d : List α} {x : α}
    (hb : x ∉ b) (hd : x ∉ d) (h : a ++ x :: b = c ++ x :: d) : a = c ∧ b = d := by
  induction a generalizing c with
  | nil =>
      cases c with
      | nil => simpa using h
      | cons y c =>
          simp only [List.nil_append, List.cons_append, List.cons.injEq] at h
          exact absurd (h.2 ▸ by simp) hb
  | cons y a ih =>
      cases c with
      | nil =>
          simp only [List.nil_append, List.cons_append, List.cons.injEq] at h
          exact absurd (h.2 ▸ by simp) hd
      | cons z c =>
          simp only [List.cons_append, List.cons.injEq] at h
          obtain ⟨hac, hbd⟩ := ih h.2
          exact ⟨by rw [h.1, hac], hbd⟩

/-- A decimal numeral holds no dot. -/
theorem dot_notMem_repr (n : Nat) : '.' ∉ n.repr.toList := by
  intro h
  rw [Nat.repr, String.toList_ofList] at h
  have := Nat.isDigit_of_mem_toDigits (by decide) (by decide) h
  simp [Char.isDigit] at this

theorem tmpPath_toList (file : String) (pid : Nat) (unique : UInt64) :
    (tmpPath file pid unique).toList =
      ((file.toList ++ '.' :: pid.repr.toList) ++ '.' :: unique.toNat.repr.toList) ++
        ['.', 't', 'm', 'p'] := by
  rw [show ['.', 't', 'm', 'p'] = ".tmp".toList from rfl]
  simp only [tmpPath, String.toList_append, List.append_assoc]
  rfl

/-- Temporary names of different processes differ, whatever the file and the counter. -/
theorem tmpPath_pid {file file' : String} {pid pid' : Nat} {unique unique' : UInt64}
    (h : tmpPath file pid unique = tmpPath file' pid' unique') : pid = pid' := by
  have hlist := congrArg String.toList h
  rw [tmpPath_toList, tmpPath_toList] at hlist
  have hstem := (append_cons_inj_of_notMem (dot_notMem_repr _) (dot_notMem_repr _)
    (List.append_cancel_right hlist)).1
  have hpid := (append_cons_inj_of_notMem (dot_notMem_repr _) (dot_notMem_repr _) hstem).2
  exact Nat.repr_inj.mp (String.toList_inj.mp hpid)

/-- And so do those of different extractions of one process. -/
theorem tmpPath_unique {file file' : String} {pid pid' : Nat} {unique unique' : UInt64}
    (h : tmpPath file pid unique = tmpPath file' pid' unique') : unique = unique' := by
  have hlist := congrArg String.toList h
  rw [tmpPath_toList, tmpPath_toList] at hlist
  have hcounter := (append_cons_inj_of_notMem (dot_notMem_repr _) (dot_notMem_repr _)
    (List.append_cancel_right hlist)).2
  exact UInt64.toNat_inj.mp (Nat.repr_inj.mp (String.toList_inj.mp hcounter))

/-- Store files end in `.db`, temporary files in `.tmp`. -/
theorem storeFile_ne_tmpPath {v file file' : String} {pid : Nat} {unique : UInt64}
    (h : storeFile v = some file) : file ≠ tmpPath file' pid unique := by
  have htable : ∀ entry ∈ versionStoreFiles, entry.2.toList.getLast? = some 'b' := by
    simp [versionStoreFiles]
  rintro rfl
  obtain ⟨entry, hfind, hfile⟩ := Option.map_eq_some_iff.mp h
  have hlast := htable entry (List.mem_of_find?_eq_some hfind)
  rw [hfile, tmpPath_toList, List.getLast?_append] at hlast
  exact absurd (Option.some.inj hlast) (by decide)

/-- Distinct versions have distinct store files. -/
theorem storeFile_inj {v v' file : String} (h : storeFile v = some file)
    (h' : storeFile v' = some file) : v = v' := by
  have htable : (versionStoreFiles.map (·.2)).Nodup := by simp [versionStoreFiles]
  obtain ⟨entry, hfind, hfile⟩ := Option.map_eq_some_iff.mp h
  obtain ⟨entry', hfind', hfile'⟩ := Option.map_eq_some_iff.mp h'
  have hentry : entry = entry' := List.inj_on_of_nodup_map htable
    (List.mem_of_find?_eq_some hfind) (List.mem_of_find?_eq_some hfind') (hfile.trans hfile'.symm)
  have hv := List.find?_some hfind
  have hv' := List.find?_some hfind'
  simp only [beq_iff_eq] at hv hv'
  rw [← hv, ← hv', hentry]

end TopdeskMcp
