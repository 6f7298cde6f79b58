import TopdeskMcp.Theorems.Completeness
import TopdeskMcp.Theorems.Indexing
import TopdeskMcp.Theorems.Store
import TopdeskMcp.Tools.SearchTool

/-!
# From the indexer to the search

The indexer goes through the stores of all versions and leaves each one compressed, the next build
embeds these files, and a process of that build extracts, opens and searches them.

* `run_outcome`: a run of the indexer publishes every store, or stops at the first one with a row
  that cannot be indexed or a file that cannot be used, and loses no endpoint of it;
* `searches_what_is_indexed`: after a run that succeeds, whatever the threads and processes of the
  build do, a connection that is served finds every operation of its version.
-/

namespace TopdeskMcp.Theorems.Release

open TopdeskMcp TopdeskMcp.Populate Crash Crash.Prog Crash.Files

open TopdeskMcp.Theorems.Populate (Holds PackedAs zstSibling_ne safe_query missing_eq_nil)

open TopdeskMcp.Theorems.Indexing

section

variable {crates : Crates} {service : Service} {storage : Storage String}
  {embedding : String → List UInt32} {path file : String} {disk : Disk} {db db' : Database}

/-! ## One store -/

/-- A store, compressed or not. -/
def Stored (crates : Crates) (path : String) (db : Database) (disk : Disk) : Prop :=
  Holds crates path db disk ∨
    ∃ image, PackedAs crates path image disk ∧ crates.readDb image = .ok db

/-- A compressed store. -/
def Published (crates : Crates) (path : String) (db : Database) (disk : Disk) : Prop :=
  ∃ image, PackedAs crates path image disk ∧ crates.readDb image = .ok db

/-- ... of the endpoints of another one, with one row for each of them. -/
def PublishedIndex (crates : Crates) (embedding : String → List UInt32) (path : String)
    (db : Database) (disk : Disk) : Prop :=
  ∃ db', Published crates path db' disk ∧ Complete embedding db db'

/-- All that is said of a store is about its two files. -/
theorem Stored.congr {disk' : Disk} (h : Stored crates path db disk)
    (hraw : disk' path = disk path) (hzst : disk' (zstSibling path) = disk (zstSibling path)) :
    Stored crates path db disk' := by
  rcases h with ⟨raw, hfile, hdb⟩ | ⟨image, ⟨hnone, compressed, hcompressed, hdecode⟩, hdb⟩
  · exact .inl ⟨raw, hraw.trans hfile, hdb⟩
  · exact .inr ⟨image, ⟨hraw.trans hnone, compressed, hzst.trans hcompressed, hdecode⟩, hdb⟩

theorem PublishedIndex.congr {disk' : Disk} (h : PublishedIndex crates embedding path db disk)
    (hraw : disk' path = disk path) (hzst : disk' (zstSibling path) = disk (zstSibling path)) :
    PublishedIndex crates embedding path db disk' := by
  obtain ⟨db', ⟨image, ⟨hnone, compressed, hcompressed, hdecode⟩, hdb⟩, hcomplete⟩ := h
  exact ⟨db', ⟨image, ⟨hraw.trans hnone, compressed, hzst.trans hcompressed, hdecode⟩, hdb⟩,
    hcomplete⟩

/-- A store that is not decompressed is compressed. -/
theorem Stored.packed (h : Stored crates path db disk) (hnone : disk path = none) :
    ∃ image, PackedAs crates path image disk ∧ crates.readDb image = .ok db := by
  refine h.resolve_left ?_
  rintro ⟨raw, hraw, -⟩
  rw [hnone] at hraw
  simp at hraw

theorem exists_of_holds (disk : Disk) (h : Holds crates path db disk) :
    ∃ raw, disk path = some raw :=
  let ⟨raw, hraw, _⟩ := h
  ⟨raw, hraw⟩

/-- What is written to the compressed store is nothing to the decompressed one. -/
theorem holds_put (h : Holds crates path db disk) (contents : Bytes) :
    Holds crates path db (disk.put (zstSibling path) contents) := by
  obtain ⟨raw, hraw, hdb⟩ := h
  exact ⟨raw, (put_of_ne disk (zstSibling_ne path).symm).trans hraw, hdb⟩

/-- The store can be decompressed, if it has to be. -/
def Unpacks (storage : Storage String) (path : String) (disk : Disk) : Prop :=
  disk path = none →
    storage.readable (zstSibling path) = true ∧ storage.writing path = .whole

/-- The decompressed store can be compressed again, and removed. -/
def Repacks (storage : Storage String) (path : String) : Prop :=
  storage.readable path = true ∧ storage.writing (zstSibling path) = .whole ∧
    storage.removable path = true

/-- The decompressed store is that of the compressed one, unless there was one already. -/
theorem safe_ensureRawDb : Safe (fun disk => Stored crates path db disk ∧ Unpacks storage path disk)
    (ensureRawDb crates storage path) (fun _ => Holds crates path db) (fun _ => True) := by
  apply Safe.bind (safe_pathExists fun _ _ => trivial)
  intro present
  cases present with
  | true =>
      rw [if_pos rfl]
      refine Safe.pure (fun disk h => ?_) fun _ _ => trivial
      obtain ⟨⟨hstored, -⟩, hpresent⟩ := h
      rcases hstored with hholds | ⟨image, ⟨hnone, -⟩, -⟩
      · exact hholds
      · rw [hnone] at hpresent
        simp at hpresent
  | false =>
      rw [if_neg Bool.false_ne_true]
      rintro disk ⟨⟨hstored, hunpacks⟩, hpresent⟩
      have hnone : disk path = none := Option.not_isSome_iff_eq_none.mp (by simp [← hpresent])
      obtain ⟨hreadable, hwhole⟩ := hunpacks hnone
      obtain ⟨image, ⟨-, compressed, hfile, hdecode⟩, hdb⟩ := hstored.packed hnone
      refine Safe.bind (Storage.safe_read hreadable hfile) ?_ disk rfl
      rintro contents s ⟨rfl, rfl⟩
      rw [hdecode]
      dsimp only
      rw [Storage.write_of_whole hwhole]
      refine safe_write (P := fun _ => True) (fun _ _ => ⟨trivial, fun _ _ => trivial⟩) ?_ s trivial
      intro s' _
      exact ⟨image, put_self s', hdb⟩

/-- The compressed store is as it was, and beside it there is at most a beginning of the
decompressed one. -/
def Unopened (crates : Crates) (path : String) (db : Database) (start disk : Disk) : Prop :=
  disk (zstSibling path) = start (zstSibling path) ∧
    ∃ image, PackedAs crates path image start ∧ crates.readDb image = .ok db ∧
      ∀ raw, disk path = some raw → raw <+: image

/-- A store that cannot be decompressed stays compressed. -/
theorem fails_ensureRawDb (hstored : Stored crates path db disk)
    (h : ¬ Unpacks storage path disk) :
    Fails (fun s => s = disk) (ensureRawDb crates storage path) (Unopened crates path db disk) := by
  unfold Unpacks at h
  push Not at h
  obtain ⟨hnone, hfails⟩ := h
  obtain ⟨image, hpacked, hdb⟩ := hstored.packed hnone
  obtain ⟨compressed, hfile, hdecode⟩ := hpacked.2
  -- the file is not there, or has a beginning of what is written
  have hbeginning : ∀ written, written <+: image →
      Unopened crates path db disk (disk.put path written) := by
    intro written hwritten
    refine ⟨put_of_ne disk (zstSibling_ne path), image, hpacked, hdb, fun raw hraw => ?_⟩
    rw [put_self] at hraw
    exact Option.some.inj hraw ▸ hwritten
  have hsame : Unopened crates path db disk disk :=
    ⟨rfl, image, hpacked, hdb, fun raw hraw => by simp [hnone] at hraw⟩
  apply Fails.bind_of_safe (Q := fun present s => present = false ∧ s = disk)
    (C := fun _ => True)
  · rintro s rfl
    exact ⟨fun _ _ => trivial, _, rfl, by simp [hnone], rfl⟩
  · rintro present s ⟨rfl, rfl⟩
    rw [if_neg Bool.false_ne_true]
    by_cases hreadable : storage.readable (zstSibling path) = true
    · refine Fails.bind_of_safe (Storage.safe_read hreadable hfile) ?_ s rfl
      rintro contents t ⟨rfl, rfl⟩
      rw [hdecode]
      refine Storage.fails_write (P := fun u => u = t) (hfails hreadable) ?_ ?_ t rfl
      · rintro u rfl
        exact hsame
      · rintro u written rfl hwritten
        exact hbeginning written hwritten
    · refine (Storage.fails_read (P := fun t => t = s) (by simpa using hreadable) ?_).bind s rfl
      rintro t rfl
      exact hsame

/-- What is recompressed is what is read. -/
theorem safe_recompressAndRemoveRaw (hlawful : crates.Lawful) (hrepacks : Repacks storage path) :
    Safe (Holds crates path db) (recompressAndRemoveRaw crates storage path)
      (fun _ => Published crates path db) (fun _ => True) := by
  obtain ⟨hreadable, hwhole, hremovable⟩ := hrepacks
  unfold recompressAndRemoveRaw
  rw [Storage.read_of_readable hreadable, Storage.remove_of_removable hremovable]
  apply Safe.bind (safe_read exists_of_holds fun _ _ => trivial)
  intro raw
  obtain ⟨compressed, hencode, hdecode⟩ := hlawful.decode_encode raw zstdLevel
  rw [hencode]
  dsimp only
  rw [Storage.write_of_whole hwhole]
  apply Safe.bind (Q := fun _ disk => (Holds crates path db disk ∧ disk path = some raw) ∧
    disk (zstSibling path) = some compressed)
  · refine safe_write (fun _ _ => ⟨trivial, fun _ _ => trivial⟩) ?_
    rintro disk ⟨hholds, hraw⟩
    exact ⟨⟨holds_put hholds _, (put_of_ne disk (zstSibling_ne path).symm).trans hraw⟩,
      put_self disk⟩
  · intro _
    refine safe_remove ?_ (fun _ _ => ⟨trivial, trivial⟩) ?_
    · rintro disk ⟨⟨-, hraw⟩, -⟩
      rw [hraw]
      simp
    · rintro disk ⟨⟨⟨raw', hraw', hdb⟩, hraw⟩, hcompressed⟩
      obtain rfl : raw' = raw := Option.some.inj (hraw'.symm.trans hraw)
      exact ⟨raw', ⟨erase_self disk, compressed,
        (erase_of_ne disk (zstSibling_ne path)).trans hcompressed, hdecode⟩, hdb⟩

/-- A store that cannot be compressed again stays decompressed. -/
theorem fails_recompressAndRemoveRaw (hlawful : crates.Lawful) (h : ¬ Repacks storage path) :
    Fails (Holds crates path db) (recompressAndRemoveRaw crates storage path)
      (Holds crates path db) := by
  by_cases hreadable : storage.readable path = true
  · unfold recompressAndRemoveRaw
    rw [Storage.read_of_readable hreadable]
    apply Fails.bind_of_safe (safe_read exists_of_holds (C := fun _ => True) fun _ _ => trivial)
    intro raw
    obtain ⟨compressed, hencode, -⟩ := hlawful.decode_encode raw zstdLevel
    rw [hencode]
    dsimp only
    by_cases hwhole : storage.writing (zstSibling path) = .whole
    · rw [Storage.write_of_whole hwhole]
      apply Fails.bind_of_safe (Q := fun _ => Holds crates path db) (C := fun _ => True)
      · exact safe_write (fun _ _ => ⟨trivial, fun _ _ => trivial⟩) fun disk hdb =>
          holds_put hdb.1 _
      · intro _
        refine Storage.fails_remove (Bool.eq_false_iff.mpr fun hremovable => ?_) fun _ hdb => hdb
        exact h ⟨hreadable, hwhole, hremovable⟩
    · exact (Storage.fails_write hwhole (fun _ hdb => hdb.1) fun disk written hdb _ =>
        holds_put hdb.1 written).bind
  · exact (Storage.fails_read (by simpa using hreadable) fun _ hdb => hdb).bind

theorem missing_of_complete (h : Complete embedding db db') : db'.missing = [] := by
  apply missing_eq_nil
  intro row hrow
  rw [h.endpoints] at hrow
  have hfilter := h.rows row hrow
  have hmem : (row.operationId, vectorToLeBytes (embedding row.text)) ∈
      db'.semanticEndpoints.filter (·.1 = row.operationId) := by
    rw [hfilter]
    exact List.mem_singleton_self _
  exact List.mem_map.mpr ⟨_, (List.mem_filter.mp hmem).1, rfl⟩

/-- No row of the store fails. -/
def Clean (service : Service) (db : Database) : Prop :=
  ∀ entry ∈ db.endpoints.zipIdx, failure service entry = none

/-- Nothing fails in the turn of a store, neither a row nor a file. -/
structure Smooth (service : Service) (storage : Storage String) (path : String) (db : Database)
    (disk : Disk) : Prop where
  clean : Clean service db
  unpacks : Unpacks storage path disk
  repacks : Repacks storage path

/-- No endpoint of the store is lost: it is decompressed with all of them, or compressed as it
was. -/
def NotLost (crates : Crates) (path : String) (db : Database) (start disk : Disk) : Prop :=
  (∃ db', Holds crates path db' disk ∧ db'.endpoints = db.endpoints) ∨
    Unopened crates path db start disk

/-- What is left of a row that fails has all the endpoints. -/
theorem notLost_of_row {start : Disk} {stage : Stage} {past : List (EndpointRow × Nat)}
    {operationId : String}
    (h : Holds crates path (stage.leaves operationId (indexed service db past)) disk) :
    NotLost crates path db start disk := by
  refine .inl ⟨_, h, ?_⟩
  unfold Stage.leaves
  split <;> rfl

/-- One turn of the loop: the store is published with all its rows, or the turn fails and nothing
of the store is lost. -/
theorem populateTarget_cases (hlawful : crates.Lawful)
    (hunique : (db.endpoints.map (·.operationId)).Nodup) (hembeds : Embeds service embedding)
    (h : Stored crates path db disk) :
    (Smooth service storage path db disk ∧
      (populateTarget crates service storage path disk).result = .ok [] ∧
      PublishedIndex crates embedding path db
        (populateTarget crates service storage path disk).final) ∨
    (¬ Smooth service storage path db disk ∧
      (∃ err, (populateTarget crates service storage path disk).result = .error err) ∧
      NotLost crates path db disk (populateTarget crates service storage path disk).final) := by
  by_cases hunpacks : Unpacks storage path disk
  · rcases first_failure service db.endpoints.zipIdx with hnone | hsome
    · have hcomplete := complete_indexed hembeds hunique hnone
      by_cases hrepacks : Repacks storage path
      · left
        have hsafe : Safe (fun disk => Stored crates path db disk ∧ Unpacks storage path disk)
            (populateTarget crates service storage path) (fun missing disk => missing = [] ∧
              Published crates path (indexed service db db.endpoints.zipIdx) disk)
            (fun _ => True) := by
          apply Safe.bind safe_ensureRawDb
          intro _
          apply Safe.bind (safe_populateOne hlawful hnone)
          intro count
          apply Safe.of_and
          intro _
          apply Safe.bind ((safe_query (·.missing)).mono_cut fun _ _ => trivial)
          intro missing
          apply Safe.of_and
          rintro rfl
          apply Safe.bind (safe_recompressAndRemoveRaw hlawful hrepacks)
          intro _
          exact Safe.pure (fun _ h => ⟨missing_of_complete hcomplete, h⟩) fun _ _ => trivial
        obtain ⟨-, missing, hresult, rfl, hpublished⟩ := hsafe disk ⟨h, hunpacks⟩
        exact ⟨⟨hnone, hunpacks, hrepacks⟩, hresult, _, hpublished, hcomplete⟩
      · right
        have hfails : Fails (fun disk => Stored crates path db disk ∧ Unpacks storage path disk)
            (populateTarget crates service storage path)
            (Holds crates path (indexed service db db.endpoints.zipIdx)) := by
          apply Fails.bind_of_safe safe_ensureRawDb
          intro _
          apply Fails.bind_of_safe (safe_populateOne hlawful hnone)
          rintro count disk ⟨-, hdb⟩
          refine Fails.bind_of_safe (safe_query (·.missing)) ?_ disk hdb
          rintro missing disk ⟨-, hdb⟩
          exact (fails_recompressAndRemoveRaw hlawful hrepacks).bind disk hdb
        obtain ⟨herr, hholds⟩ := hfails disk ⟨h, hunpacks⟩
        exact ⟨fun hsmooth => hrepacks hsmooth.repacks, herr, .inl ⟨_, hholds, rfl⟩⟩
    · right
      obtain ⟨past, entry, rest, stage, hrows, hpast, hstage⟩ := hsome
      have hfails : Fails (fun disk => Stored crates path db disk ∧ Unpacks storage path disk)
          (populateTarget crates service storage path)
          (Holds crates path
            (stage.leaves entry.1.operationId (indexed service db past))) := by
        apply Fails.bind_of_safe safe_ensureRawDb
        intro _
        exact (fails_populateOne hlawful hrows hpast hstage).bind
      obtain ⟨herr, hholds⟩ := hfails disk ⟨h, hunpacks⟩
      refine ⟨fun hsmooth => ?_, herr, notLost_of_row hholds⟩
      rw [hsmooth.clean entry (by rw [hrows]; simp)] at hstage
      simp at hstage
  · right
    obtain ⟨herr, hunopened⟩ := (fails_ensureRawDb h hunpacks).bind disk rfl
    exact ⟨fun hsmooth => hunpacks hsmooth.unpacks, herr, .inr hunopened⟩

/-- All that is said of the state before is about the two files of the store. -/
theorem Smooth.congr {disk' : Disk} (h : Smooth service storage path db disk)
    (hraw : disk' path = disk path) : Smooth service storage path db disk' :=
  ⟨h.clean, fun hnone => h.unpacks (hraw.symm.trans hnone), h.repacks⟩

theorem NotLost.congr {start start' : Disk} (h : NotLost crates path db start disk)
    (hraw : start' path = start path)
    (hzst : start' (zstSibling path) = start (zstSibling path)) :
    NotLost crates path db start' disk := by
  rcases h with hopen | ⟨hsame, image, ⟨hnone, compressed, hfile, hdecode⟩, hdb, hraws⟩
  · exact .inl hopen
  · exact .inr ⟨hsame.trans hzst.symm, image,
      ⟨hraw.trans hnone, compressed, hzst.trans hfile, hdecode⟩, hdb, hraws⟩

/-! ## Files of other stores -/

theorem keeps_execute {change : Database → Except String Database} (h : file ≠ path) :
    Keeps (fun disk : Disk => disk file) (execute crates path change) := by
  apply Keeps.atomically
  intro disk _ disk' hstep
  cases hraw : disk path with
  | none => simp [hraw] at hstep
  | some raw =>
      cases hdb : crates.readDb raw with
      | error err => simp [hraw, hdb] at hstep
      | ok db =>
          cases hchange : change db with
          | error err => simp [hraw, hdb, hchange] at hstep
          | ok db' =>
              simp only [hraw, hdb, hchange, Except.ok.injEq, Prod.mk.injEq, true_and] at hstep
              rw [← hstep]
              exact put_of_ne disk h

theorem keeps_query {α : Type} {select : Database → α} :
    Keeps (fun disk : Disk => disk file) (query crates path select) := by
  apply Keeps.atomically
  intro disk _ disk' hstep
  cases hraw : disk path with
  | none => simp [hraw] at hstep
  | some raw =>
      cases hdb : crates.readDb raw with
      | error err => simp [hraw, hdb] at hstep
      | ok db =>
          simp only [hraw, hdb, Except.ok.injEq, Prod.mk.injEq] at hstep
          rw [hstep.2]

theorem keeps_populateTarget (hraw : file ≠ path) (hzst : file ≠ zstSibling path) :
    Keeps (fun disk : Disk => disk file) (populateTarget crates service storage path) := by
  apply Keeps.bind
  · apply Keeps.bind keeps_pathExists
    intro present
    split
    · exact Keeps.pure
    · apply Keeps.bind Storage.keeps_read
      intro compressed
      split
      · exact Keeps.fail
      · exact Storage.keeps_write hraw
  · intro _
    apply Keeps.bind
    · apply Keeps.bind keeps_query
      intro rows
      apply Keeps.bind
      · apply Keeps.forM
        intro entry
        unfold populateRow
        split
        · exact Keeps.fail
        · exact Keeps.bind (keeps_execute hraw) fun _ => keeps_execute hraw
      · exact fun _ => Keeps.pure
    · intro _
      apply Keeps.bind keeps_query
      intro missing
      apply Keeps.bind
      · apply Keeps.bind Storage.keeps_read
        intro raw
        split
        · exact Keeps.fail
        · exact Keeps.bind (Storage.keeps_write hzst) fun _ => Storage.keeps_remove hraw
      · exact fun _ => Keeps.pure

/-! ## All stores -/

theorem zstSibling_inj {path path' : String} (h : zstSibling path = zstSibling path') :
    path = path' := by
  have hlist := congrArg String.toList h
  simp only [zstSibling, String.toList_append] at hlist
  exact String.toList_inj.mp (List.append_cancel_right hlist)

/-- Different stores with different files. -/
structure Separate (targets : List String) : Prop where
  nodup : targets.Nodup
  siblings : ∀ path ∈ targets, ∀ other ∈ targets, zstSibling path ≠ other

/-- The stores gone through are published, all other files are as they were. -/
structure Progress (crates : Crates) (service : Service) (storage : Storage String)
    (embedding : String → List UInt32) (dbs : String → Database) (start : Disk)
    (past : List String) (hadMismatch : Bool) (disk : Disk) : Prop where
  matched : hadMismatch = false
  published : ∀ path ∈ past, Smooth service storage path (dbs path) start ∧
    PublishedIndex crates embedding path (dbs path) disk
  untouched : ∀ file, file ∉ past → file ∉ past.map zstSibling → disk file = start file

/-- What a run of the indexer comes to. -/
structure Outcome (crates : Crates) (service : Service) (storage : Storage String)
    (embedding : String → List UInt32) (dbs : String → Database) (targets : List String)
    (start : Disk) (run : Run Disk String Unit) : Prop where
  succeeds : run.result = .ok () ↔
    ∀ path ∈ targets, Smooth service storage path (dbs path) start
  all : run.result = .ok () →
    ∀ path ∈ targets, PublishedIndex crates embedding path (dbs path) run.final
  /-- Nothing is lost of the first store that fails, and none after it has been touched. -/
  stopped : ∀ err, run.result = .error err → ∃ past path rest, targets = past ++ path :: rest ∧
    (∀ other ∈ past, PublishedIndex crates embedding other (dbs other) run.final) ∧
    NotLost crates path (dbs path) start run.final ∧
    ∀ other ∈ rest, run.final other = start other ∧
      run.final (zstSibling other) = start (zstSibling other)
  others : ∀ file, file ∉ targets → file ∉ targets.map zstSibling → run.final file = start file

variable {dbs : String → Database} {targets past rest : List String} {start : Disk}

/-- A store is none of those that were gone through before it. -/
theorem Separate.fresh (h : Separate targets) (htargets : targets = past ++ path :: rest) :
    (path ∉ past ∧ path ∉ past.map zstSibling) ∧
      zstSibling path ∉ past ∧ zstSibling path ∉ past.map zstSibling := by
  subst htargets
  have hpath : path ∈ past ++ path :: rest := by simp
  have hpast : ∀ other ∈ past, other ∈ past ++ path :: rest := fun _ h => by simp [h]
  have hnotin : path ∉ past := fun hmem =>
    (List.nodup_append.mp h.nodup).2.2 path hmem path (by simp) rfl
  refine ⟨⟨hnotin, ?_⟩, ?_, ?_⟩
  · intro hmem
    obtain ⟨other, hother, heq⟩ := List.mem_map.mp hmem
    exact h.siblings other (hpast other hother) path hpath heq
  · intro hmem
    exact h.siblings path hpath _ (hpast _ hmem) rfl
  · intro hmem
    obtain ⟨other, hother, heq⟩ := List.mem_map.mp hmem
    exact hnotin (zstSibling_inj heq ▸ hother)

/-- One turn touches the two files of its store. -/
theorem Progress.turn (hseparate : Separate targets) (htargets : targets = past ++ path :: rest)
    {hadMismatch : Bool} {disk' : Disk}
    (h : Progress crates service storage embedding dbs start past hadMismatch disk)
    (hkeeps : ∀ file, file ≠ path → file ≠ zstSibling path → disk' file = disk file) :
    (∀ other ∈ past, PublishedIndex crates embedding other (dbs other) disk') ∧
      ∀ file, file ∉ past ++ [path] → file ∉ (past ++ [path]).map zstSibling →
        disk' file = start file := by
  obtain ⟨⟨hpath, hpath'⟩, hzst, hzst'⟩ := hseparate.fresh htargets
  constructor
  · intro other hother
    refine (h.published other hother).2.congr (hkeeps _ ?_ ?_) (hkeeps _ ?_ ?_)
    · exact fun heq => hpath (heq ▸ hother)
    · exact fun heq => hzst (heq ▸ hother)
    · exact fun heq => hpath' (heq ▸ List.mem_map_of_mem hother)
    · exact fun heq => hzst' (heq ▸ List.mem_map_of_mem hother)
  · intro file hfile hfile'
    rw [List.mem_append, List.mem_singleton, not_or] at hfile
    rw [List.map_append, List.mem_append, List.map_singleton, List.mem_singleton, not_or] at hfile'
    rw [hkeeps file hfile.2 hfile'.2]
    exact h.untouched file hfile.1 hfile'.1

/-- The next store is as it was at the start. -/
theorem Progress.same (hseparate : Separate targets) (htargets : targets = past ++ path :: rest)
    {hadMismatch : Bool}
    (h : Progress crates service storage embedding dbs start past hadMismatch disk) :
    disk path = start path ∧ disk (zstSibling path) = start (zstSibling path) := by
  obtain ⟨⟨hpath, hpath'⟩, hzst, hzst'⟩ := hseparate.fresh htargets
  exact ⟨h.untouched path hpath hpath', h.untouched _ hzst hzst'⟩

/-- The body of the loop of `main`. -/
def turn (crates : Crates) (service : Service) (storage : Storage String) (hadMismatch : Bool)
    (path : String) : Prog Disk String Bool := do
  let missing ← populateTarget crates service storage path
  pure (hadMismatch || !missing.isEmpty)

theorem yields_turn (hlawful : crates.Lawful) (hseparate : Separate targets)
    (hstored : ∀ path ∈ targets, Stored crates path (dbs path) start)
    (hunique : ∀ path ∈ targets, ((dbs path).endpoints.map (·.operationId)).Nodup)
    (hembeds : Embeds service embedding) (htargets : targets = past ++ path :: rest)
    (hadMismatch : Bool) :
    Yields (Progress crates service storage embedding dbs start past hadMismatch)
      (turn crates service storage hadMismatch path)
      (Progress crates service storage embedding dbs start (past ++ [path])) := by
  intro disk h mismatch hok
  have hpath : path ∈ targets := by simp [htargets]
  obtain ⟨hraw, hzst⟩ := h.same hseparate htargets
  have hdisk := (hstored path hpath).congr hraw hzst
  rcases populateTarget_cases hlawful (hunique path hpath) hembeds hdisk with
    ⟨hsmooth, hresult, hpublished⟩ | ⟨-, ⟨err, herr⟩, -⟩
  · unfold turn at hok ⊢
    rw [bind_of_ok hresult] at hok ⊢
    have hkeeps : ∀ file, file ≠ path → file ≠ zstSibling path →
        (populateTarget crates service storage path disk).final file = disk file :=
      fun _ hraw hzst => keeps_populateTarget hraw hzst disk
    obtain ⟨hothers, huntouched⟩ := h.turn hseparate htargets hkeeps
    refine ⟨?_, ?_, huntouched⟩
    · rw [← Except.ok.inj hok, h.matched]
      rfl
    · intro other hother
      rcases List.mem_append.mp hother with hother | hother
      · exact ⟨(h.published other hother).1, hothers other hother⟩
      · rw [List.mem_singleton.mp hother]
        exact ⟨hsmooth.congr hraw.symm, hpublished⟩
  · unfold turn at hok
    rw [bind_of_error herr] at hok
    simp at hok

/-- A store that comes later is none of those up to here. -/
theorem Separate.later (h : Separate targets) (htargets : targets = past ++ path :: rest)
    {other : String} (hother : other ∈ rest) :
    (other ∉ past ++ [path] ∧ other ∉ (past ++ [path]).map zstSibling) ∧
      zstSibling other ∉ past ++ [path] ∧ zstSibling other ∉ (past ++ [path]).map zstSibling := by
  obtain ⟨before, after, hrest⟩ := List.append_of_mem hother
  have hlater : targets = (past ++ path :: before) ++ other :: after := by
    rw [htargets, hrest]
    simp
  have hsub : past ++ [path] ⊆ past ++ path :: before := by
    intro file hfile
    simp only [List.mem_append, List.mem_cons] at hfile ⊢
    tauto
  obtain ⟨⟨h₁, h₂⟩, h₃, h₄⟩ := h.fresh hlater
  exact ⟨⟨fun hmem => h₁ (hsub hmem), fun hmem => h₂ (List.map_subset _ hsub hmem)⟩,
    fun hmem => h₃ (hsub hmem), fun hmem => h₄ (List.map_subset _ hsub hmem)⟩

/-- The body of the loop fails where `populate_target` does, and leaves what that leaves. -/
theorem turn_of_error {hadMismatch : Bool} {err : String}
    (hlawful : crates.Lawful) (hunique : (db.endpoints.map (·.operationId)).Nodup)
    (hembeds : Embeds service embedding) (h : Stored crates path db disk)
    (herr : (turn crates service storage hadMismatch path disk).result = .error err) :
    ¬ Smooth service storage path db disk ∧
      NotLost crates path db disk (turn crates service storage hadMismatch path disk).final ∧
      (turn crates service storage hadMismatch path disk).final =
        (populateTarget crates service storage path disk).final := by
  unfold turn at herr ⊢
  rcases populateTarget_cases hlawful hunique hembeds h with
    ⟨-, hresult, -⟩ | ⟨hrough, ⟨err', herr'⟩, hkept⟩
  · rw [bind_of_ok hresult] at herr
    exact absurd herr (by simp [Pure.pure, Prog.done])
  · rw [bind_of_error herr']
    exact ⟨hrough, hkept, rfl⟩

/-- A run of the indexer goes through all stores, or stops at one where something fails. -/
theorem main_cases (hlawful : crates.Lawful) (hseparate : Separate targets)
    (hstored : ∀ path ∈ targets, Stored crates path (dbs path) start)
    (hunique : ∀ path ∈ targets, ((dbs path).endpoints.map (·.operationId)).Nodup)
    (hembeds : Embeds service embedding) :
    ((main crates service storage targets start).result = .ok () ∧
      Progress crates service storage embedding dbs start targets false
        (main crates service storage targets start).final) ∨
    ∃ err past path rest, (main crates service storage targets start).result = .error err ∧
      targets = past ++ path :: rest ∧ ¬ Smooth service storage path (dbs path) start ∧
      (∀ other ∈ past, PublishedIndex crates embedding other (dbs other)
        (main crates service storage targets start).final) ∧
      NotLost crates path (dbs path) start (main crates service storage targets start).final ∧
      ∀ file, file ∉ past ++ [path] → file ∉ (past ++ [path]).map zstSibling →
        (main crates service storage targets start).final file = start file := by
  have hstart : Progress crates service storage embedding dbs start [] false start :=
    ⟨rfl, by simp, fun _ _ _ => rfl⟩
  obtain ⟨hall, hstopped⟩ := foldlM_cases (turn crates service storage) targets
    (fun past path rest hadMismatch htargets => yields_turn hlawful hseparate hstored hunique
      hembeds htargets hadMismatch) hstart
  have hmain : main crates service storage targets =
      (targets.foldlM (turn crates service storage) false >>=
        fun hadMismatch => if hadMismatch then fail _ else pure ()) := rfl
  cases hloop : (targets.foldlM (turn crates service storage) false start).result with
  | ok mismatch =>
      left
      have hprogress := hall mismatch hloop
      obtain rfl := hprogress.matched
      rw [hmain, bind_of_ok hloop]
      exact ⟨rfl, hprogress⟩
  | error err =>
      right
      obtain ⟨past, path, rest, hadMismatch, disk, htargets, hprogress, herr, hfinal⟩ :=
        hstopped err hloop
      have hpath : path ∈ targets := by simp [htargets]
      obtain ⟨hraw, hzst⟩ := hprogress.same hseparate htargets
      have hdisk := (hstored path hpath).congr hraw hzst
      obtain ⟨hrough, hkept, hturn⟩ :=
        turn_of_error hlawful (hunique path hpath) hembeds hdisk herr
      have hkeeps : ∀ file, file ≠ path → file ≠ zstSibling path →
          (turn crates service storage hadMismatch path disk).final file = disk file := by
        intro file hraw hzst
        rw [hturn]
        exact keeps_populateTarget hraw hzst disk
      obtain ⟨hpublished, huntouched⟩ := hprogress.turn hseparate htargets hkeeps
      rw [hmain, bind_of_error hloop, hfinal]
      exact ⟨err, past, path, rest, rfl, htargets, fun hsmooth => hrough (hsmooth.congr hraw),
        hpublished, hkept.congr hraw.symm hzst.symm, huntouched⟩

/-- A run that succeeds has published every store. -/
theorem published_of_ok (hlawful : crates.Lawful) (hseparate : Separate targets)
    (hstored : ∀ path ∈ targets, Stored crates path (dbs path) start)
    (hunique : ∀ path ∈ targets, ((dbs path).endpoints.map (·.operationId)).Nodup)
    (hembeds : Embeds service embedding)
    (hok : (main crates service storage targets start).result = .ok ()) :
    ∀ path ∈ targets, PublishedIndex crates embedding path (dbs path)
      (main crates service storage targets start).final := by
  rcases main_cases hlawful hseparate hstored hunique hembeds with ⟨-, hprogress⟩ |
    ⟨err, -, -, -, herr, -⟩
  · exact fun path hpath => (hprogress.published path hpath).2
  · rw [herr] at hok
    simp at hok

end

/-! ## The search -/

section

variable {embedding : String → List UInt32} {db db' : Database}

open Search

/-- As many rows as are asked for are found, up to the limit of `sqlite-vec`. -/
def FindsAll (index : VecIndex) : Prop :=
  ∀ rows blob k, rows.length ≤ k → k ≤ 4096 →
    (index.nearest rows blob k).Perm (rows.map Prod.fst)

theorem count_of_complete (h : Complete embedding db db') {row : EndpointRow}
    (hrow : row ∈ db.endpoints) :
    (db'.semanticEndpoints.map Prod.fst).count row.operationId = 1 := by
  have hlength := congrArg List.length (h.rows row hrow)
  rw [List.length_singleton] at hlength
  rw [List.count_eq_countP, List.countP_map, List.countP_eq_length_filter, ← hlength]
  congr 1

/-- A search for enough rows finds every endpoint once. -/
theorem searchEndpoints_perm {index : VecIndex} (hindex : FindsAll index)
    (h : Complete embedding db db') (queryEmbedding : List UInt32) {limit : Nat}
    (hlimit : db'.semanticEndpoints.length ≤ limit) (hmax : limit ≤ 4096) :
    (searchEndpoints index db' queryEmbedding limit).Perm
      (db.endpoints.map fun row => ⟨row.operationId, row.summary⟩) := by
  have hperm := hindex db'.semanticEndpoints (vectorToLeBytes queryEmbedding) limit hlimit hmax
  have hjoin : ((index.nearest db'.semanticEndpoints (vectorToLeBytes queryEmbedding)
      limit).flatMap fun operationId =>
        db.endpoints.filter fun row => row.operationId = operationId).Perm db.endpoints := by
    apply Table.join_perm
    intro row hrow
    rw [hperm.count_eq]
    exact count_of_complete h hrow
  unfold searchEndpoints
  rw [h.endpoints, ← List.map_flatMap]
  exact hjoin.map _

/-- The search does not warn. -/
theorem silent_of_complete (h : Complete embedding db db')
    (hunique : (db.endpoints.map (·.operationId)).Nodup) :
    warnIfEmbeddingsIncomplete (.ok (counts db')) = false := by
  have hsubset : db.endpoints.map (·.operationId) ⊆ db'.semanticEndpoints.map Prod.fst := by
    intro operationId hmem
    obtain ⟨row, hrow, rfl⟩ := List.mem_map.mp hmem
    exact List.count_pos_iff.mp (by rw [count_of_complete h hrow]; omega)
  have hlength := (hunique.subperm hsubset).length_le
  rw [List.length_map, List.length_map] at hlength
  show decide (db'.semanticEndpoints.length < db'.endpoints.length) = false
  rw [h.endpoints]
  exact decide_eq_false (by omega)

end

/-! ## The build -/

section

open Trace TopdeskMcp.Store Theorems.Store

/-- What a build embeds for an API version, from the files on the disk. -/
def embedded (disk : Disk) (apiVersion : String) : Option Bytes :=
  (embeddedFile apiVersion).bind disk

/-- The two tables agree. -/
theorem versionStoreBytesFiles_eq :
    versionStoreBytesFiles = versionStoreFiles.map fun entry => (entry.1, zstSibling entry.2) := by
  simp [versionStoreBytesFiles, versionStoreFiles, zstSibling]

theorem embeddedFile_eq (apiVersion : String) :
    embeddedFile apiVersion = (storeFile apiVersion).map zstSibling := by
  rw [embeddedFile, storeFile, versionStoreBytesFiles_eq, List.find?_map, Option.map_map,
    Option.map_map]
  rfl

theorem separate_versionStoreFiles : Separate (versionStoreFiles.map (·.2)) where
  nodup := by simp [versionStoreFiles]
  siblings := by
    have htable : ∀ entry ∈ versionStoreFiles, entry.2.toList.getLast? = some 'b' := by
      simp [versionStoreFiles]
    intro path _ other hother heq
    obtain ⟨entry, hentry, rfl⟩ := List.mem_map.mp hother
    have hlast := htable entry hentry
    rw [← heq, zstSibling, String.toList_append, List.getLast?_append] at hlast
    exact absurd (Option.some.inj hlast) (by decide)

theorem mem_of_storeFile {v path : String} (h : storeFile v = some path) :
    path ∈ versionStoreFiles.map (·.2) := by
  obtain ⟨entry, hfind, rfl⟩ := Option.map_eq_some_iff.mp h
  exact List.mem_map_of_mem (List.mem_of_find?_eq_some hfind)

variable {decodeAll : Bytes → Option Bytes} {bytes : String → Option Bytes} {w₀ w : World}

/-- Processes of one build, whose readers are right. -/
structure OneBuild (decodeAll : Bytes → Option Bytes) (bytes : String → Option Bytes)
    (w : World) : Prop where
  bytes : ∀ pid, (w.procs pid).versionStoreBytes = bytes
  catalog : CatalogInv decodeAll w

/-- Among processes of one build no rename shadows another payload. -/
theorem oneBuild_step :
    (store decodeAll).Inductive (fun _ _ => True) (OneBuild decodeAll bytes) := by
  intro w e w' h _ hstep
  have hunshadowed : NotShadowed decodeAll w e := by
    intro _ v file tmp content attempts hphase pid _ _
    obtain ⟨hextract, -⟩ : Extracting decodeAll e.pid e.tid (w.procs e.pid) v file tmp content ∧
        w.dir tmp = some content := by
      simpa [hphase, PhaseOk] using h.catalog.threads e.pid e.tid
    rw [← hextract.payload, Process.payload, Process.payload, h.bytes, h.bytes]
  refine ⟨?_, catalogInv_inductive w e w' h.catalog hunshadowed hstep⟩
  obtain ⟨-, dir', p', hact, rfl⟩ := step_eq_some.mp hstep
  intro pid
  show (Function.update w.procs e.pid p' pid).versionStoreBytes = bytes
  by_cases hpid : pid = e.pid
  · subst hpid
    rw [Function.update_self, Acts.versionStoreBytes (acts_of_act hact)]
    exact h.bytes e.pid
  · rw [Function.update_of_ne hpid]
    exact h.bytes pid

/-- **From the indexer to the search.** The indexer has run over all stores and succeeded, and the
build embeds what it left. Whatever processes of that build do, in any order and whatever is in
the temp directory, a connection that is served for a version is that version's store with one
embedding for each endpoint: searching it gives no warning, and a search for as many rows as there
are finds every operation, each once. -/
theorem searches_what_is_indexed (crates : Crates) (service : Service)
    (storage : Storage String) (embedding : String → List UInt32) (dbs : String → Database)
    (start : Disk) (index : Search.VecIndex) (hlawful : crates.Lawful) (hindex : FindsAll index)
    (hstored : ∀ path ∈ targetsFrom [], Stored crates path (dbs path) start)
    (hunique : ∀ path ∈ targetsFrom [], ((dbs path).endpoints.map (·.operationId)).Nodup)
    (hembeds : Embeds service embedding)
    (hok : (main crates service storage (targetsFrom []) start).result = .ok ())
    (hfresh : ∀ pid, (w₀.procs pid).Fresh)
    (hbuild : ∀ pid, (w₀.procs pid).versionStoreBytes =
      embedded (main crates service storage (targetsFrom []) start).final)
    {es : List Store.Event} (hrun : (store crates.decodeAll).run w₀ es = some w)
    {pid tid : Nat} {v : String} {conn : Connection}
    (hserved : (w.procs pid).threads tid = .served v conn) :
    ∃ path db', storeFile v = some path ∧ crates.readDb conn.database = .ok db' ∧
      Complete embedding (dbs path) db' ∧
      ∀ embed query queryEmbedding limit, embed query = .ok queryEmbedding →
        db'.semanticEndpoints.length ≤ limit → limit ≤ 4096 →
        ∃ results, Search.searchOperations index embed db' query limit = (false, .ok results) ∧
          results.Perm ((dbs path).endpoints.map fun row => ⟨row.operationId, row.summary⟩) := by
  have hpublished := published_of_ok hlawful separate_versionStoreFiles hstored hunique hembeds hok
  have hone : OneBuild crates.decodeAll _ w :=
    oneBuild_step.reach ⟨hbuild, catalogInv_init hfresh⟩ hrun
  -- the connection holds what the build embeds
  have hpayload := hone.catalog.servesOwn pid tid v conn hserved
  rw [Process.payload, hone.bytes, embedded, embeddedFile_eq] at hpayload
  obtain ⟨compressed, hcompressed, hdecode⟩ := Option.bind_eq_some_iff.mp hpayload
  obtain ⟨sibling, hsibling, hfile⟩ := Option.bind_eq_some_iff.mp hcompressed
  obtain ⟨path, hpath, rfl⟩ := Option.map_eq_some_iff.mp hsibling
  -- ... which the indexer published
  have hmem : path ∈ targetsFrom [] := mem_of_storeFile hpath
  obtain ⟨db', ⟨image, ⟨-, compressed', hcompressed', hdecode'⟩, hdb⟩, hcomplete⟩ :=
    hpublished path hmem
  obtain rfl : compressed' = compressed := Option.some.inj (hcompressed'.symm.trans hfile)
  obtain rfl : image = conn.database := Option.some.inj (hdecode'.symm.trans hdecode)
  refine ⟨path, db', hpath, hdb, hcomplete, ?_⟩
  intro embed query queryEmbedding limit hembed hlimit hmax
  refine ⟨_, ?_, searchEndpoints_perm hindex hcomplete queryEmbedding hlimit hmax⟩
  rw [Search.searchOperations, silent_of_complete hcomplete (hunique path hmem), hembed]
  rfl

variable (decodeAll) in
/-- A process that has just started can extract the store of a version. -/
theorem run_publish {pid : Nat} {v file : String} {content : Bytes}
    (halive : (w.procs pid).alive = true) (hfresh : (w.procs pid).Fresh)
    (hfile : storeFile v = some file)
    (hpayload : (w.procs pid).payload decodeAll v = some content) :
    ∃ es w', (store decodeAll).run w es = some w' ∧ (w'.procs pid).alive = true ∧
      (w'.procs pid).lock = none ∧ (w'.procs pid).threads 1 = .idle ∧
      (w'.procs pid).extracted v = some file ∧ (w'.procs pid).cache v = none ∧
      w'.dir file = some content := by
  obtain ⟨hextracted, hlock, hcache, hidle⟩ := hfresh
  let p := w.procs pid
  let tmp := tmpPath file pid p.unique
  let p₁ := ({ p with unique := p.unique + 1, lock := some 0 }).goto 0
    (.creating v file tmp content)
  let dir₁ := Function.update w.dir tmp (some [])
  let dir₂ := Function.update dir₁ tmp (some content)
  have hresolve : act decodeAll pid 0 w.dir p (.resolve v true) = some (w.dir, p₁) := by
    simp [act, p, hidle, hlock, resolveStorePath, hextracted, hfile, hpayload, p₁, tmp]
  let dir₃ := Function.update (Function.update dir₂ tmp none) file (some content)
  let p₂ := ({ p₁ with extracted := Function.update p.extracted v (some file), lock := none }).goto 0
    (.resolved v file)
  refine ⟨[⟨pid, 0, .resolve v true⟩, ⟨pid, 0, .create⟩, ⟨pid, 0, .write content.length⟩,
    ⟨pid, 0, .close⟩, ⟨pid, 0, .rename true⟩],
    { dir := dir₃, procs := Function.update w.procs pid p₂ }, ?_, ?_⟩
  · rw [run_act decodeAll halive _ _ hresolve]
    rw [run_act decodeAll (by simpa [p₁, Process.goto] using halive) dir₁
      (p₁.goto 0 (.writing v file tmp content 0)) (by simp [act, p₁, Process.goto, dir₁])]
    rw [run_act decodeAll (by simpa [p₁, Process.goto] using halive) dir₂
      (p₁.goto 0 (.writing v file tmp content content.length))
      (by simp [act, Process.goto, dir₂])]
    rw [run_act decodeAll (by simpa [p₁, Process.goto] using halive) dir₂
      (p₁.goto 0 (.moving v file tmp content 0)) (by simp [act, Process.goto])]
    rw [run_act decodeAll (by simpa [p₁, Process.goto] using halive) dir₃ p₂
      (by simp [act, Process.goto, dir₂, dir₃, p₁, p₂])]
    simp
  · simp [Process.goto, p₁, p₂, p, dir₃, halive, hidle, hcache]

end

/-! ## A store of one endpoint -/

namespace OneEndpoint

open Theorems.Populate.Unary TopdeskMcp.Store

theorem embeds : Embeds service fun _ => [0x3f800000] := fun _ _ _ h => (Except.ok.inj h).symm

/-- A disk that is full: of every file only the first byte is written. -/
def full : Storage String := { Storage.reliable with writing := fun _ => .short 1 }

/-- Every version has the same store, and only the compressed files are there. -/
def start : Disk := fun file =>
  if file ∈ (targetsFrom []).map zstSibling then some (image original) else none

theorem stored_start (path : String) (h : path ∈ targetsFrom []) :
    Stored crates path original start := by
  refine .inr ⟨image original, ⟨?_, image original, ?_, rfl⟩, crates_readDb original⟩
  · refine if_neg fun hmem => ?_
    obtain ⟨other, hother, heq⟩ := List.mem_map.mp hmem
    exact separate_versionStoreFiles.siblings other hother path h heq
  · exact if_pos (List.mem_map_of_mem h)

theorem ok_start : (main crates service .reliable (targetsFrom []) start).result = .ok () := by
  rcases main_cases crates_lawful separate_versionStoreFiles stored_start
    (fun _ _ => List.nodup_singleton _) embeds with ⟨hok, -⟩ | ⟨_, _, _, _, -, -, hrough, -⟩
  · exact hok
  · exact absurd ⟨fun _ _ => rfl, fun _ => ⟨rfl, rfl⟩, rfl, rfl, rfl⟩ hrough

/-- Processes of the build that have just started, over an empty directory. -/
def world : World where
  dir := fun _ => none
  procs := fun _ =>
    { versionStoreBytes := embedded (main crates service .reliable (targetsFrom []) start).final,
      alive := true, extracted := fun _ => none, lock := none, unique := 0,
      cache := fun _ => none, leaked := 0, threads := fun _ => .idle }

theorem fresh_world (pid : Nat) : (world.procs pid).Fresh :=
  ⟨fun _ => rfl, rfl, fun _ => rfl, fun _ => rfl⟩

theorem payload_world (pid : Nat) (v : String) : (world.procs pid).payload crates.decodeAll v =
    (embedded (main crates service .reliable (targetsFrom []) start).final v).bind
      crates.decodeAll := rfl

theorem storeFile_general : storeFile "general-1.2.0" = some "mcp_store.db" := rfl

/-- One process extracts the store and searches it. -/
theorem searches_original : ∃ es w conn, (store crates.decodeAll).run world es = some w ∧
    (w.procs 0).threads 1 = .served "general-1.2.0" conn ∧
    ∃ db', crates.readDb conn.database = .ok db' ∧
      Search.searchOperations Completeness.Renamed.index (fun _ => .ok []) db' "incident" 4096 =
        (false, .ok [⟨"getIncident", some "Get an incident"⟩]) := by
  have hpublished : ∀ path ∈ targetsFrom [], PublishedIndex crates (fun _ => [0x3f800000]) path
      original (main crates service .reliable (targetsFrom []) start).final :=
    published_of_ok crates_lawful separate_versionStoreFiles stored_start
      (fun _ _ => List.nodup_singleton _) embeds ok_start
  obtain ⟨db', ⟨image', ⟨-, compressed, hcompressed, hdecode⟩, hdb⟩, hcomplete⟩ :=
    hpublished "mcp_store.db" (mem_of_storeFile storeFile_general)
  have hpayload : (world.procs 0).payload crates.decodeAll "general-1.2.0" = some image' := by
    rw [payload_world, embedded, embeddedFile_eq, storeFile_general, Option.map_some,
      Option.bind_some, hcompressed]
    exact hdecode
  obtain ⟨es, w, hrun, halive, hlock, hidle, hextracted, hcache, hdisk⟩ :=
    run_publish crates.decodeAll rfl (fresh_world 0) storeFile_general hpayload
  obtain ⟨fs, hserve⟩ := Theorems.Store.run_serve crates.decodeAll halive hlock hidle hextracted
    hcache hdisk
  have hall := Trace.Lts.run_append_eq_some.mpr ⟨w, hrun, hserve⟩
  let p := Theorems.Store.Process.serving (w.procs 0) 1 "general-1.2.0" image'
  have hserved : ((World.mk w.dir (Function.update w.procs 0 p)).procs 0).threads 1 =
      .served "general-1.2.0" ⟨(w.procs 0).leaked, image'⟩ := by
    simp [p, Theorems.Store.Process.serving, Process.goto]
  have hindex : FindsAll Completeness.Renamed.index := by
    intro rows blob k hk _
    show ((rows.map Prod.fst).take k).Perm _
    rw [List.take_of_length_le (by rwa [List.length_map])]
  obtain ⟨path, db'', hpath, hread, hcomplete', hsearch⟩ := searches_what_is_indexed crates service
    .reliable (fun _ => [0x3f800000]) (fun _ => original) start Completeness.Renamed.index
    crates_lawful hindex stored_start (fun _ _ => List.nodup_singleton _) embeds ok_start fresh_world (fun _ => rfl) hall
    hserved
  refine ⟨es ++ fs, _, _, hall, hserved, db'', hread, ?_⟩
  -- there are no rows but those of the endpoint
  have hrows : db''.semanticEndpoints.filter (·.1 = "getIncident") = db''.semanticEndpoints := by
    refine List.filter_eq_self.mpr fun entry hentry => ?_
    by_contra hother
    have hnone := hcomplete'.others entry.1 (by simpa [original] using hother)
    have hmem : entry ∈ db''.semanticEndpoints.filter (·.1 = entry.1) :=
      List.mem_filter.mpr ⟨hentry, by simp⟩
    rw [hnone] at hmem
    simp [original] at hmem
  have hone := congrArg List.length (hcomplete'.rows _ (List.mem_singleton_self _))
  rw [show (db''.semanticEndpoints.filter _).length = _ from congrArg List.length hrows] at hone
  obtain ⟨results, hresults, hperm⟩ := hsearch (fun _ => .ok []) "incident" [] 4096 rfl
    (by rw [hone]; decide) (Nat.le_refl _)
  rw [hresults, List.perm_singleton.mp hperm]

end OneEndpoint

end TopdeskMcp.Theorems.Release
