import TopdeskMcp.Data.StorePath
import TopdeskMcp.Theorems.Store

/-!
# What a failed extraction leaves behind

A call of `resolve_store_path` that fails before its temporary file is created changes nothing.
One that fails later leaves the file: nothing removes it, and the next call writes to another
name. The destination and the path cache are as they were either way.
-/

namespace TopdeskMcp.Theorems.Leftovers

open TopdeskMcp TopdeskMcp.StorePath Trace Function

/-- No file is new, and the destination and the cache are as they were. -/
structure Unchanged (apiVersion : String) (s s' : StorePath.State) : Prop where
  created : ∀ name, s.dir name = none → s'.dir name = none
  destination : ∀ file, storeFile apiVersion = some file → s'.dir file = s.dir file
  cache : s'.extracted = s.extracted

/-- The call fails. -/
def Fails (host : Host) (s : StorePath.State) (call : Call) : Prop :=
  ∃ err, (resolveStorePath host call.faults call.apiVersion s).1 = .error err

/-- If the call fails it leaves nothing behind. -/
def CleansUp (host : Host) (s : StorePath.State) (call : Call) : Prop :=
  Fails host s call →
    Unchanged call.apiVersion s (resolveStorePath host call.faults call.apiVersion s).2

/-- The call comes to the write, with these contents for this file. -/
structure Writes (host : Host) (s : StorePath.State) (call : Call) (file : String)
    (decompressed : Bytes) : Prop where
  cached : s.extracted call.apiVersion = none
  known : storeFile call.apiVersion = some file
  payload : host.payload call.apiVersion = some decompressed
  dirCreated : call.faults.dirCreated = true

/-- The write fails after the file is created, or every rename does. -/
def Faults.Late (faults : Faults) : Prop :=
  (∃ count, faults.write = .cut count) ∨
    (faults.write = .written ∧ ∀ attempt ≤ 5, faults.renamed attempt = false)

/-- The call creates its temporary file and then fails. -/
def Abandons (host : Host) (s : StorePath.State) (call : Call) : Prop :=
  Faults.Late call.faults ∧ ∃ file decompressed, Writes host s call file decompressed ∧
    s.dir (tmpPath file host.pid s.unique) = none

section Call

variable {host : Host} {faults : Faults} {call : Call} {apiVersion file : String}
  {decompressed : Bytes} {s : StorePath.State}

theorem moves_eq_false_iff (renamed : Nat → Bool) (left attempts : Nat) :
    moves renamed attempts left = false ↔
      ∀ attempt, attempts ≤ attempt → attempt ≤ attempts + left → renamed attempt = false := by
  induction left generalizing attempts with
  | zero =>
      constructor
      · intro h attempt hle hge
        obtain rfl : attempt = attempts := by omega
        exact h
      · intro h
        exact h attempts (by omega) (by omega)
  | succ left ih =>
      rw [moves, Bool.or_eq_false_iff, ih]
      constructor
      · intro h attempt hle hge
        by_cases heq : attempt = attempts
        · rw [heq]
          exact h.1
        · exact h.2 attempt (by omega) (by omega)
      · intro h
        exact ⟨h attempts (by omega) (by omega), fun attempt hle hge =>
          h attempt (by omega) (by omega)⟩

theorem moves_eq_false_of_late (h : Faults.Late faults) (hwrite : faults.write = .written) :
    moves faults.renamed 0 5 = false := by
  rcases h with ⟨count, hcut⟩ | ⟨-, hrenamed⟩
  · rw [hwrite] at hcut
    cases hcut
  · rw [moves_eq_false_iff]
    intro attempt _ hle
    exact hrenamed attempt (by omega)

/-- A late failure leaves the temporary file, with some contents. -/
theorem extract_of_late (host : Host) (apiVersion file : String) (decompressed : Bytes)
    (s : StorePath.State) (h : Faults.Late faults) :
    ∃ err contents, extract host faults apiVersion file decompressed s =
      (.error err, { s with
        dir := update s.dir (tmpPath file host.pid s.unique) (some contents)
        unique := s.unique + 1 }) := by
  cases hwrite : faults.write with
  | notCreated =>
      rcases h with ⟨count, hcut⟩ | ⟨hwritten, -⟩
      · rw [hwrite] at hcut
        cases hcut
      · rw [hwrite] at hwritten
        cases hwritten
  | cut count =>
      simp only [extract, hwrite]
      exact ⟨_, decompressed.take count, rfl⟩
  | written =>
      simp only [extract, hwrite, moves_eq_false_of_late h hwrite]
      exact ⟨_, decompressed, rfl⟩

/-- Any other failure is that the file could not be created. -/
theorem extract_of_not_late (h : ¬ Faults.Late faults) {err : String}
    (herr : (extract host faults apiVersion file decompressed s).1 = .error err) :
    (extract host faults apiVersion file decompressed s).2 = { s with unique := s.unique + 1 } := by
  cases hwrite : faults.write with
  | notCreated => simp only [extract, hwrite]
  | cut count => exact absurd (.inl ⟨count, hwrite⟩) h
  | written =>
      -- some rename succeeds, and so does the call
      have hmoves : moves faults.renamed 0 5 = true := by
        rw [← Bool.not_eq_false]
        intro hmoves
        rw [moves_eq_false_iff] at hmoves
        exact h (.inr ⟨hwrite, fun attempt hle => hmoves attempt (by omega) (by omega)⟩)
      simp only [extract, hwrite, hmoves, if_true] at herr
      cases herr

theorem resolve_of_writes (h : Writes host s call file decompressed) :
    resolveStorePath host call.faults call.apiVersion s =
      extract host call.faults call.apiVersion file decompressed s := by
  obtain ⟨bytes, hbytes, hdecode⟩ := Option.bind_eq_some_iff.mp h.payload
  simp only [resolveStorePath, h.cached, h.known, hbytes, h.dirCreated, if_true, hdecode]

/-- A call that does not come to the write answers from the cache or fails, and changes nothing. -/
theorem resolve_of_not_writes (h : ∀ file decompressed, ¬ Writes host s call file decompressed) :
    (∃ path, s.extracted call.apiVersion = some path ∧
      resolveStorePath host call.faults call.apiVersion s = (.ok path, s)) ∨
    ∃ err, s.extracted call.apiVersion = none ∧
      resolveStorePath host call.faults call.apiVersion s = (.error err, s) := by
  unfold resolveStorePath
  split
  · exact .inl ⟨_, ‹_›, rfl⟩
  · rename_i hcached
    refine .inr ?_
    split
    · exact ⟨_, hcached, rfl⟩
    · split
      · exact ⟨_, hcached, rfl⟩
      · split
        · split
          · exact ⟨_, hcached, rfl⟩
          · rename_i file hfile _ bytes hbytes hcreated _ decompressed hdecode
            exact absurd ⟨hcached, hfile, Option.bind_eq_some_iff.mpr ⟨bytes, hbytes, hdecode⟩,
              hcreated⟩ (h file decompressed)
        · exact ⟨_, hcached, rfl⟩

/-- What a call that fails does: nothing to the directory, or one temporary file. -/
inductive Leaves (host : Host) (s : StorePath.State) (call : Call) : StorePath.State → Prop
  | nothing {t : StorePath.State} (hdir : t.dir = s.dir) (hcache : t.extracted = s.extracted)
      (hnot : ¬ Abandons host s call) : Leaves host s call t
  | tmp {t : StorePath.State} {file : String} {decompressed contents : Bytes}
      (hlate : Faults.Late call.faults) (hwrites : Writes host s call file decompressed)
      (hdir : t.dir = update s.dir (tmpPath file host.pid s.unique) (some contents))
      (hcache : t.extracted = s.extracted) : Leaves host s call t

theorem leaves_of_fails (h : Fails host s call) :
    Leaves host s call (resolveStorePath host call.faults call.apiVersion s).2 := by
  obtain ⟨err, herr⟩ := h
  by_cases hwrites : ∃ file decompressed, Writes host s call file decompressed
  · obtain ⟨file, decompressed, hwrites⟩ := hwrites
    rw [resolve_of_writes hwrites] at herr ⊢
    by_cases hlate : Faults.Late call.faults
    · obtain ⟨err', contents, hextract⟩ :=
        extract_of_late host call.apiVersion file decompressed s hlate
      rw [hextract]
      exact .tmp hlate hwrites rfl rfl
    · rw [extract_of_not_late hlate herr]
      exact .nothing rfl rfl fun habandons => hlate habandons.1
  · push Not at hwrites
    have hnot : ¬ Abandons host s call := by
      rintro ⟨-, file, decompressed, hwrites', -⟩
      exact hwrites file decompressed hwrites'
    rcases resolve_of_not_writes hwrites with ⟨path, -, hresolve⟩ | ⟨err', -, hresolve⟩
    · rw [hresolve]
      exact .nothing rfl rfl hnot
    · rw [hresolve]
      exact .nothing rfl rfl hnot

theorem Leaves.cache {t : StorePath.State} (h : Leaves host s call t) :
    t.extracted = s.extracted := by
  cases h with
  | nothing _ hcache => exact hcache
  | tmp _ _ _ hcache => exact hcache

/-- The destination has another name than the temporary file. -/
theorem Leaves.destination {t : StorePath.State} (h : Leaves host s call t)
    (hfile : storeFile apiVersion = some file) : t.dir file = s.dir file := by
  cases h with
  | nothing hdir => rw [hdir]
  | tmp _ _ hdir => rw [hdir, update_of_ne (storeFile_ne_tmpPath hfile)]

/-- A failed call removes no file. -/
theorem Leaves.kept {t : StorePath.State} (h : Leaves host s call t) {name : String}
    (hname : t.dir name = none) : s.dir name = none := by
  cases h with
  | nothing hdir => rwa [hdir] at hname
  | @tmp tmpFile decompressed contents hlate hwrites hdir hcache =>
      by_cases heq : name = tmpPath tmpFile host.pid s.unique
      · rw [hdir, heq, update_self] at hname
        cases hname
      · rwa [hdir, update_of_ne heq] at hname

/-- A failed call creates a file if it abandons one, and only then. -/
theorem Leaves.created_iff {t : StorePath.State} (h : Leaves host s call t) :
    (∀ name, s.dir name = none → t.dir name = none) ↔ ¬ Abandons host s call := by
  cases h with
  | nothing hdir _ hnot =>
      refine ⟨fun _ => hnot, ?_⟩
      intro _ name hname
      rw [hdir]
      exact hname
  | @tmp file decompressed contents hlate hwrites hdir _ =>
      constructor
      · rintro hcreated ⟨-, file', decompressed', hwrites', hnew⟩
        obtain rfl : file' = file := Option.some.inj (hwrites'.known.symm.trans hwrites.known)
        have hgone : t.dir (tmpPath file' host.pid s.unique) = none := hcreated _ hnew
        rw [hdir, update_self] at hgone
        cases hgone
      · intro hnot name hname
        have hne : name ≠ tmpPath file host.pid s.unique := by
          intro heq
          exact hnot ⟨hlate, file, decompressed, hwrites, heq ▸ hname⟩
        rw [hdir, update_of_ne hne]
        exact hname

theorem fails_of_abandons (h : Abandons host s call) : Fails host s call := by
  obtain ⟨hlate, file, decompressed, hwrites, -⟩ := h
  obtain ⟨err, contents, hextract⟩ :=
    extract_of_late host call.apiVersion file decompressed s hlate
  exact ⟨err, by rw [resolve_of_writes hwrites, hextract]⟩

theorem cleansUp_iff : CleansUp host s call ↔ ¬ Abandons host s call := by
  constructor
  · intro h habandons
    have hfails : Fails host s call := fails_of_abandons habandons
    exact (leaves_of_fails hfails).created_iff.mp (h hfails).created habandons
  · intro h hfails
    have hleaves := leaves_of_fails hfails
    exact ⟨hleaves.created_iff.mpr h, fun _ => hleaves.destination, hleaves.cache⟩

end Call

section Runs

variable {host : Host} {s s' : StorePath.State} {calls : List Call}

/-- Failing calls remove no file. -/
theorem kept_run (hfails : (storePath host).Along (Fails host) s calls)
    (hrun : (storePath host).run s calls = some s') {name : String} (hname : s'.dir name = none) :
    s.dir name = none := by
  have hinductive : (storePath host).Inductive (Fails host)
      fun t => s.dir name ≠ none → t.dir name ≠ none := by
    intro t call t' hkept hfails hstep hs ht'
    obtain rfl := Option.some.inj hstep
    exact hkept hs ((leaves_of_fails hfails).kept ht')
  by_contra hs
  exact hinductive.run id hfails hrun hs hname

/-- A run of failing calls creates a file if one of them abandons one, and only then. -/
theorem created_run_iff (hfails : (storePath host).Along (Fails host) s calls)
    (hrun : (storePath host).run s calls = some s') :
    (∀ name, s.dir name = none → s'.dir name = none) ↔
      (storePath host).Along (fun t call => ¬ Abandons host t call) s calls := by
  induction calls generalizing s with
  | nil =>
      obtain rfl : s = s' := by simpa using hrun
      exact ⟨fun _ => trivial, fun _ _ hname => hname⟩
  | cons call calls ih =>
      obtain ⟨t, ht, hrest⟩ := Lts.run_cons_eq_some.mp hrun
      have hleaves : Leaves host s call t := by
        obtain rfl := Option.some.inj ht
        exact leaves_of_fails (hfails.head rfl)
      have hiff := ih (hfails.tail ht) hrest
      constructor
      · intro h
        -- what this call creates is still there at the end
        have hhere : ¬ Abandons host s call := hleaves.created_iff.mp fun name hname =>
          kept_run (hfails.tail ht) hrest (h name hname)
        refine .cons hhere ht (hiff.mp ?_)
        intro name hname
        exact h name (hleaves.kept hname)
      · intro h name hname
        exact hiff.mpr (h.tail ht) name (hleaves.created_iff.mpr (h.head ht) name hname)

theorem writes_congr {call : Call} {file : String} {decompressed : Bytes}
    (h : Writes host s call file decompressed) (hcache : s'.extracted = s.extracted) :
    Writes host s' call file decompressed :=
  { h with cached := by rw [hcache, h.cached] }

/-- The name that the call after `i` others writes to. -/
def tmpName (host : Host) (file : String) (unique : UInt64) (i : Nat) : String :=
  tmpPath file host.pid (unique + UInt64.ofNat i)

theorem nodup_tmpNames (host : Host) (file : String) (unique : UInt64) {n : Nat}
    (hn : n ≤ UInt64.size) : ((List.range n).map (tmpName host file unique)).Nodup := by
  refine List.nodup_range.map_on ?_
  intro i hi j hj h
  have hi' : i < UInt64.size := Nat.lt_of_lt_of_le (List.mem_range.mp hi) hn
  have hj' : j < UInt64.size := Nat.lt_of_lt_of_le (List.mem_range.mp hj) hn
  have hsum : unique + UInt64.ofNat i = unique + UInt64.ofNat j := tmpPath_unique h
  have hsame := congrArg UInt64.toNat ((UInt64.add_right_inj unique).mp hsum)
  rwa [UInt64.toNat_ofNat_of_lt' hi', UInt64.toNat_ofNat_of_lt' hj'] at hsame

/-- Repeating a late failure leaves a file each time. -/
theorem late_run {call : Call} {file : String} {decompressed : Bytes}
    (hlate : Faults.Late call.faults) (hwrites : Writes host s call file decompressed) (n : Nat) :
    ∃ s', (storePath host).run s (List.replicate n call) = some s' ∧
      s'.extracted = s.extracted ∧ s'.unique = s.unique + UInt64.ofNat n ∧
      ∀ i < n, s'.dir (tmpName host file s.unique i) ≠ none := by
  induction n with
  | zero => exact ⟨s, rfl, rfl, by simp, by simp⟩
  | succ n ih =>
      obtain ⟨t, hrun, hcache, hunique, hfiles⟩ := ih
      obtain ⟨err, contents, hextract⟩ :=
        extract_of_late host call.apiVersion file decompressed t hlate
      have hstep := resolve_of_writes (writes_congr hwrites hcache)
      rw [hextract] at hstep
      refine ⟨{ t with
        dir := update t.dir (tmpPath file host.pid t.unique) (some contents)
        unique := t.unique + 1 }, ?_, hcache, ?_, ?_⟩
      · rw [List.replicate_succ', Lts.run_append, hrun]
        show some (resolveStorePath host call.faults call.apiVersion t).2 = _
        rw [hstep]
      · show t.unique + 1 = _
        rw [hunique, UInt64.ofNat_add, UInt64.add_assoc]
        rfl
      · intro i hi
        show update t.dir (tmpPath file host.pid t.unique) (some contents) _ ≠ none
        by_cases heq : tmpName host file s.unique i = tmpPath file host.pid t.unique
        · rw [heq, update_self]
          simp
        · rw [update_of_ne heq]
          refine hfiles i ?_
          by_contra hlast
          obtain rfl : i = n := by omega
          exact heq (by rw [tmpName, hunique])

/-- **The directory grows** by one file for each call that fails late, until the counter wraps. -/
theorem piles_up {call : Call} {file : String} {decompressed : Bytes} {n : Nat}
    (hn : n ≤ UInt64.size) (hlate : Faults.Late call.faults)
    (hwrites : Writes host s call file decompressed)
    (hnew : ∀ unique, s.dir (tmpPath file host.pid unique) = none) :
    ∃ s', ∃ names : List String, (storePath host).run s (List.replicate n call) = some s' ∧
      names.length = n ∧ names.Nodup ∧ ∀ name ∈ names, s.dir name = none ∧ s'.dir name ≠ none := by
  obtain ⟨s', hrun, -, -, hfiles⟩ := late_run hlate hwrites n
  refine ⟨s', (List.range n).map (tmpName host file s.unique), hrun, by simp,
    nodup_tmpNames host file s.unique hn, ?_⟩
  intro name hname
  obtain ⟨i, hi, rfl⟩ := List.mem_map.mp hname
  exact ⟨hnew _, hfiles i (List.mem_range.mp hi)⟩

end Runs

/-- **A failed extraction leaves nothing behind** exactly if it does not abandon its temporary
file; and the directory does not grow over a run of failing calls exactly if none of them does. -/
theorem leaves_nothing_iff (host : Host) :
    (∀ s call, CleansUp host s call ↔ ¬ Abandons host s call) ∧
      ∀ s s' calls, (storePath host).Along (Fails host) s calls →
        (storePath host).run s calls = some s' →
        ((∀ name, s.dir name = none → s'.dir name = none) ↔
          (storePath host).Along (fun t call => ¬ Abandons host t call) s calls) := by
  constructor
  · intro s call
    exact cleansUp_iff
  · intro s s' calls hfails hrun
    exact created_run_iff hfails hrun

namespace Denied

/-- A release that embeds one byte for the first version. -/
def host : Host where
  pid := 1
  tempDir := "/tmp/topdesk-mcp-store"
  versionStoreBytes apiVersion := if apiVersion = "general-1.2.0" then some [1] else none
  decodeAll := some

def started : StorePath.State where
  dir _ := none
  extracted _ := none
  unique := 0

/-- Another process has the store file open, and no rename over it succeeds. -/
def held : Call where
  faults := { dirCreated := true, write := .written, renamed := fun _ => false }
  apiVersion := "general-1.2.0"

/-- The temporary file cannot be created. -/
def full : Call where
  faults := { dirCreated := true, write := .notCreated, renamed := fun _ => true }
  apiVersion := "general-1.2.0"

/-- The six renames of one call fail, and its file stays in the directory. -/
theorem leaves_nothing_fails : ¬ ∀ s call, CleansUp host s call := by
  intro h
  have hfails : Fails host started held := ⟨_, rfl⟩
  have hgone := (h started held hfails).created "mcp_store.db.1.0.tmp" rfl
  cases hgone

/-- Two calls that cannot create their files leave the directory as it is. -/
theorem leaves_nothing_full : CleansUp host started full ∧
    ∃ s', (storePath host).run started [full, full] = some s' ∧
      ∀ name, started.dir name = none → s'.dir name = none := by
  have hnot : ∀ s, ¬ Abandons host s full := by
    rintro s ⟨⟨count, hcut⟩ | ⟨hwritten, -⟩, -⟩
    · cases hcut
    · cases hwritten
  have hfails : (storePath host).Along (Fails host) started [full, full] :=
    .cons ⟨_, rfl⟩ rfl (.cons ⟨_, rfl⟩ rfl trivial)
  refine ⟨((leaves_nothing_iff host).1 started full).mpr (hnot started), _, rfl, ?_⟩
  refine ((leaves_nothing_iff host).2 started _ [full, full] hfails rfl).mpr ?_
  exact .cons (hnot _) rfl (.cons (hnot _) rfl trivial)

end Denied

/-! ## A call of `Store` -/

/-- A thread without a call, in a process of which no thread extracts. -/
structure Ready (host : Host) (w : Store.World) (tid : Nat) : Prop where
  alive : (w.procs host.pid).alive = true
  release : (w.procs host.pid).versionStoreBytes = host.versionStoreBytes
  idle : (w.procs host.pid).threads tid = .idle
  free : (w.procs host.pid).lock = none

/-- What a call sees of the world. -/
def view (host : Host) (w : Store.World) : StorePath.State where
  dir := w.dir
  extracted := (w.procs host.pid).extracted
  unique := (w.procs host.pid).unique

def answer (apiVersion : String) : Except String String → Store.Phase
  | .ok file => .resolved apiVersion file
  | .error _ => .failed

/-- The process once a thread has renamed its file. -/
def published (p : Store.Process) (tid : Nat) (apiVersion file : String) : Store.Process :=
  ({ p with extracted := update p.extracted apiVersion (some file), lock := none }).goto tid
    (.resolved apiVersion file)

/-- The process while a thread extracts. -/
def extracting (p : Store.Process) (tid : Nat) (phase : Store.Phase) : Store.Process :=
  ({ p with unique := p.unique + 1, lock := some tid }).goto tid phase

theorem extracting_alive {p : Store.Process} {tid : Nat} (phase : Store.Phase)
    (h : p.alive = true) : (extracting p tid phase).alive = true := h

@[simp] theorem extracting_threads (p : Store.Process) (tid : Nat) (phase : Store.Phase) :
    (extracting p tid phase).threads tid = phase := update_self ..

@[simp] theorem extracting_goto (p : Store.Process) (tid : Nat) (phase phase' : Store.Phase) :
    (extracting p tid phase).goto tid phase' = extracting p tid phase' := by
  simp only [extracting, Store.Process.goto, update_idem]

theorem extracting_unlock {p : Store.Process} {tid : Nat} {phase phase' : Store.Phase}
    (h : p.lock = none) : ((extracting p tid phase).withLock none).goto tid phase' =
      ({ p with unique := p.unique + 1 }).goto tid phase' := by
  simp only [extracting, Store.Process.withLock, Store.Process.goto, update_idem, h]

theorem extracting_published {p : Store.Process} {tid : Nat} {phase : Store.Phase}
    {apiVersion file : String} (h : p.lock = none) :
    published (extracting p tid phase) tid apiVersion file =
      ({ p with
        extracted := update p.extracted apiVersion (some file)
        unique := p.unique + 1 }).goto tid (.resolved apiVersion file) := by
  simp only [published, extracting, Store.Process.goto, update_idem, h]

/-- The process after a call. -/
def returned (p : Store.Process) (tid : Nat) (apiVersion : String)
    (r : Except String String × StorePath.State) : Store.Process :=
  ({ p with extracted := r.2.extracted, unique := r.2.unique }).goto tid (answer apiVersion r.1)

section Simulation

variable {host : Host} {call : Call} {w : Store.World} {tid pid : Nat} {file tmp : String}
  {decompressed : Bytes}

theorem run_publish (decodeAll : Bytes → Option Bytes) {apiVersion : String} {contents : Bytes}
    {attempts : Nat} (halive : (w.procs pid).alive = true)
    (hphase : (w.procs pid).threads tid = .moving apiVersion file tmp decompressed attempts)
    (htmp : w.dir tmp = some contents) :
    (store decodeAll).run w [⟨pid, tid, .rename true⟩] = some
      { dir := update (update w.dir tmp none) file (some contents)
        procs := update w.procs pid (published (w.procs pid) tid apiVersion file) } := by
  rw [Store.run_act decodeAll halive]
  · rfl
  · simp only [Store.act, hphase, htmp]
    rfl

/-- The retry loop is a run of renames. -/
theorem run_moves (decodeAll : Bytes → Option Bytes) (renamed : Nat → Bool) {apiVersion : String}
    {contents : Bytes} (left attempts : Nat) (hsum : attempts + left = 5)
    (halive : (w.procs pid).alive = true)
    (hphase : (w.procs pid).threads tid = .moving apiVersion file tmp decompressed attempts)
    (htmp : w.dir tmp = some contents) :
    ∃ es, (store decodeAll).run w es = some (if moves renamed attempts left then
      { dir := update (update w.dir tmp none) file (some contents)
        procs := update w.procs pid (published (w.procs pid) tid apiVersion file) }
      else { w with procs := update w.procs pid (Store.Process.unlocked (w.procs pid) tid) }) := by
  induction left generalizing w attempts with
  | zero =>
      cases hrenamed : renamed attempts with
      | true =>
          rw [moves, hrenamed]
          exact ⟨_, run_publish decodeAll halive hphase htmp⟩
      | false =>
          refine ⟨[⟨pid, tid, .rename false⟩], ?_⟩
          rw [Store.run_act decodeAll halive w.dir _ (Store.act_giveUp hphase (by omega)), moves,
            hrenamed]
          rfl
  | succ left ih =>
      cases hrenamed : renamed attempts with
      | true =>
          rw [moves, hrenamed]
          exact ⟨_, run_publish decodeAll halive hphase htmp⟩
      | false =>
          obtain ⟨es, hes⟩ := ih (attempts + 1) (w := ⟨w.dir, update w.procs pid
            ((w.procs pid).goto tid (.moving apiVersion file tmp decompressed (attempts + 1)))⟩)
            (by omega) (by simpa [Store.Process.goto] using halive) (by simp [Store.Process.goto])
            htmp
          refine ⟨⟨pid, tid, .rename false⟩ :: es, ?_⟩
          rw [Store.run_act decodeAll halive w.dir _ (Store.act_retry hphase (by omega)), hes]
          simp [moves, hrenamed, published, Store.Process.unlocked, Store.Process.goto,
            Store.Process.withLock]

theorem run_start (hready : Ready host w tid) (h : Writes host (view host w) call file decompressed)
    (es : List Store.Event) :
    (store host.decodeAll).run w (⟨host.pid, tid, .resolve call.apiVersion true⟩ :: es) =
      (store host.decodeAll).run
        { w with procs := update w.procs host.pid (extracting (w.procs host.pid) tid
          (.creating call.apiVersion file (tmpPath file host.pid (view host w).unique)
            decompressed)) } es := by
  have hcached : (w.procs host.pid).extracted call.apiVersion = none := h.cached
  have hpayload : (w.procs host.pid).payload host.decodeAll call.apiVersion =
      some decompressed := by
    rw [Store.Process.payload, hready.release]
    exact h.payload
  rw [Store.run_act host.decodeAll hready.alive]
  simp only [Store.act, hready.idle, hready.free, Store.resolveStorePath, hcached, h.known,
    hpayload, if_true]
  rfl

/-- A step of the thread that extracts. -/
theorem run_extracting {decodeAll : Bytes → Option Bytes} {p : Store.Process}
    {procs : Nat → Store.Process} {dir : Store.Dir} {phase : Store.Phase} {action : Store.Action}
    {es : List Store.Event} (halive : p.alive = true) (dir' : Store.Dir) (phase' : Store.Phase)
    (hact : Store.act decodeAll pid tid dir (extracting p tid phase) action =
      some (dir', extracting p tid phase')) :
    (store decodeAll).run { dir := dir, procs := update procs pid (extracting p tid phase) }
        (⟨pid, tid, action⟩ :: es) =
      (store decodeAll).run
        { dir := dir', procs := update procs pid (extracting p tid phase') } es := by
  have halive' : (update procs pid (extracting p tid phase) pid).alive = true := by
    rw [update_self]
    exact extracting_alive phase halive
  rw [Store.run_act decodeAll halive' dir' (extracting p tid phase'), update_idem]
  show Store.act decodeAll pid tid dir (update procs pid (extracting p tid phase) pid) action = _
  rw [update_self]
  exact hact

/-- The extraction up to the write, of any part of the contents. -/
theorem run_write (hready : Ready host w tid) (h : Writes host (view host w) call file decompressed)
    (count : Nat) (es : List Store.Event) :
    (store host.decodeAll).run w (⟨host.pid, tid, .resolve call.apiVersion true⟩ ::
        ⟨host.pid, tid, .create⟩ :: ⟨host.pid, tid, .write count⟩ :: es) =
      (store host.decodeAll).run
        { dir := update w.dir (tmpPath file host.pid (view host w).unique)
            (some (decompressed.take count))
          procs := update w.procs host.pid (extracting (w.procs host.pid) tid
            (.writing call.apiVersion file (tmpPath file host.pid (view host w).unique)
              decompressed count)) } es := by
  rw [run_start hready h]
  rw [run_extracting hready.alive
    (update w.dir (tmpPath file host.pid (view host w).unique) (some []))
    (.writing call.apiVersion file (tmpPath file host.pid (view host w).unique) decompressed 0)]
  · rw [run_extracting hready.alive (update w.dir (tmpPath file host.pid (view host w).unique)
        (some (decompressed.take count)))
      (.writing call.apiVersion file (tmpPath file host.pid (view host w).unique) decompressed
        count)]
    simp only [Store.act, extracting_threads, extracting_goto, Nat.zero_add, update_idem]
  · simp only [Store.act, extracting_threads, extracting_goto]

theorem run_fail {dir : Store.Dir} {phase : Store.Phase} (hready : Ready host w tid)
    (hphase : (∃ apiVersion file tmp decompressed,
        phase = .creating apiVersion file tmp decompressed) ∨
      ∃ apiVersion file tmp decompressed written,
        phase = .writing apiVersion file tmp decompressed written) :
    (store host.decodeAll).run
        { dir := dir, procs := update w.procs host.pid (extracting (w.procs host.pid) tid phase) }
        [⟨host.pid, tid, .fail⟩] = some
      { dir := dir, procs := update w.procs host.pid (({ w.procs host.pid with
          unique := (w.procs host.pid).unique + 1 }).goto tid .failed) } := by
  have halive : (update w.procs host.pid (extracting (w.procs host.pid) tid phase) host.pid).alive =
      true := by
    rw [update_self]
    exact extracting_alive phase hready.alive
  rw [← extracting_threads (w.procs host.pid) tid phase] at hphase
  rw [Store.run_act host.decodeAll halive dir
    (Store.Process.unlocked (extracting (w.procs host.pid) tid phase) tid), update_idem,
    Store.Process.unlocked, extracting_unlock hready.free]
  · rfl
  · show Store.act host.decodeAll host.pid tid dir (update w.procs host.pid _ host.pid) .fail = _
    rw [update_self]
    exact Store.act_fail hphase

theorem close_eq {apiVersion : String} (dir : Store.Dir) (p : Store.Process) :
    Store.act host.decodeAll pid tid dir (extracting p tid
        (.writing apiVersion file tmp decompressed decompressed.length)) .close =
      some (dir, extracting p tid (.moving apiVersion file tmp decompressed 0)) := by
  simp only [Store.act, extracting_threads, extracting_goto, Nat.le_refl, if_true]

/-- The retry loop of a call that has written its file. -/
theorem run_renames (hready : Ready host w tid) (renamed : Nat → Bool)
    (apiVersion file tmp : String) (decompressed : Bytes) :
    ∃ es, (store host.decodeAll).run
        { dir := update w.dir tmp (some decompressed)
          procs := update w.procs host.pid (extracting (w.procs host.pid) tid
            (.moving apiVersion file tmp decompressed 0)) } es =
      some (if moves renamed 0 5 then
        { dir := update (update w.dir tmp none) file (some decompressed)
          procs := update w.procs host.pid (({ w.procs host.pid with
            extracted := update (w.procs host.pid).extracted apiVersion (some file)
            unique := (w.procs host.pid).unique + 1 }).goto tid (.resolved apiVersion file)) }
      else
        { dir := update w.dir tmp (some decompressed)
          procs := update w.procs host.pid (({ w.procs host.pid with
            unique := (w.procs host.pid).unique + 1 }).goto tid .failed) }) := by
  let moving : Store.World :=
    { dir := update w.dir tmp (some decompressed)
      procs := update w.procs host.pid (extracting (w.procs host.pid) tid
        (.moving apiVersion file tmp decompressed 0)) }
  have hproc : moving.procs host.pid = extracting (w.procs host.pid) tid
      (.moving apiVersion file tmp decompressed 0) := update_self ..
  have halive : (moving.procs host.pid).alive = true := by
    rw [hproc]
    exact extracting_alive _ hready.alive
  have hphase : (moving.procs host.pid).threads tid =
      .moving apiVersion file tmp decompressed 0 := by
    rw [hproc]
    exact extracting_threads ..
  obtain ⟨es, hes⟩ := run_moves host.decodeAll renamed 5 0 rfl halive hphase (update_self ..)
  refine ⟨es, hes.trans ?_⟩
  rw [hproc, Store.Process.unlocked, extracting_unlock hready.free,
    extracting_published hready.free]
  simp only [moving, update_idem]

theorem resolveStorePath_failed (hready : Ready host w tid)
    (hcached : (w.procs host.pid).extracted call.apiVersion = none)
    (hwrites : ∀ file decompressed, ¬ Writes host (view host w) call file decompressed) :
    Store.resolveStorePath host.decodeAll host.pid tid (w.procs host.pid) call.apiVersion
      call.faults.dirCreated = (w.procs host.pid).goto tid .failed := by
  simp only [Store.resolveStorePath, hcached]
  split
  · rename_i file decompressed hfile hpayload
    rw [Store.Process.payload, hready.release] at hpayload
    have hnotCreated : ¬ call.faults.dirCreated = true := fun hcreated =>
      hwrites file decompressed ⟨hcached, hfile, hpayload, hcreated⟩
    rw [if_neg hnotCreated]
  · rfl

/-- **A call is a run of the thread's own steps**, with the same answer. -/
theorem run_resolveStorePath (hready : Ready host w tid) (call : Call) :
    ∃ es, (store host.decodeAll).run w es = some
      { dir := (resolveStorePath host call.faults call.apiVersion (view host w)).2.dir
        procs := update w.procs host.pid (returned (w.procs host.pid) tid call.apiVersion
          (resolveStorePath host call.faults call.apiVersion (view host w))) } := by
  by_cases hwrites : ∃ file decompressed, Writes host (view host w) call file decompressed
  · obtain ⟨file, decompressed, hwrites⟩ := hwrites
    rw [resolve_of_writes hwrites]
    cases hwrite : call.faults.write with
    | notCreated =>
        refine ⟨[⟨host.pid, tid, .resolve call.apiVersion true⟩, ⟨host.pid, tid, .fail⟩], ?_⟩
        rw [run_start hready hwrites, run_fail hready (.inl ⟨_, _, _, _, rfl⟩)]
        simp only [extract, hwrite]
        rfl
    | cut count =>
        refine ⟨[⟨host.pid, tid, .resolve call.apiVersion true⟩, ⟨host.pid, tid, .create⟩,
          ⟨host.pid, tid, .write count⟩, ⟨host.pid, tid, .fail⟩], ?_⟩
        rw [run_write hready hwrites, run_fail hready (.inr ⟨_, _, _, _, _, rfl⟩)]
        simp only [extract, hwrite]
        rfl
    | written =>
        obtain ⟨es, hes⟩ := run_renames hready call.faults.renamed call.apiVersion file
          (tmpPath file host.pid (view host w).unique) decompressed
        refine ⟨⟨host.pid, tid, .resolve call.apiVersion true⟩ :: ⟨host.pid, tid, .create⟩ ::
          ⟨host.pid, tid, .write decompressed.length⟩ :: ⟨host.pid, tid, .close⟩ :: es, ?_⟩
        rw [run_write hready hwrites, List.take_length, run_extracting hready.alive _ _
          (close_eq ..), hes]
        simp only [extract, hwrite]
        split <;> rfl
  · push Not at hwrites
    have hidle := hready.idle
    rcases resolve_of_not_writes hwrites with ⟨path, hcached, hresolve⟩ | ⟨err, hcached, hresolve⟩
    · refine ⟨[⟨host.pid, tid, .resolve call.apiVersion call.faults.dirCreated⟩], ?_⟩
      rw [Store.run_act host.decodeAll hready.alive w.dir
        ((w.procs host.pid).goto tid (.resolved call.apiVersion path)), hresolve]
      · rfl
      · have hcached' : (w.procs host.pid).extracted call.apiVersion = some path := hcached
        simp only [Store.act, hidle, hready.free, Store.resolveStorePath, hcached']
    · refine ⟨[⟨host.pid, tid, .resolve call.apiVersion call.faults.dirCreated⟩], ?_⟩
      rw [Store.run_act host.decodeAll hready.alive w.dir
        ((w.procs host.pid).goto tid .failed), hresolve]
      · rfl
      · simp only [Store.act, hidle, hready.free, resolveStorePath_failed hready hcached hwrites]

end Simulation

end TopdeskMcp.Theorems.Leftovers
