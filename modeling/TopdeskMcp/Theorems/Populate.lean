import TopdeskMcp.Bin.PopulateEmbeddings
import Mathlib.Logic.Equiv.List

/-!
# Interrupting and rerunning the embeddings run

A run that is cut off leaves a decompressed store, a compressed one, or the beginning of a
decompressed store. The first two are enough for the next run; the third is taken for the
store because the file exists, and no run gets past it. `Working` and `Packed` are the two
good states of a directory and `HalfWritten` is the bad one.
-/

namespace TopdeskMcp.Theorems.Populate

open TopdeskMcp TopdeskMcp.Populate Crash Crash.Prog Crash.Files

section Runs

variable {crates : Crates} {service : Service} {path : String} {endpoints : List EndpointRow}
  {image : Bytes} {disk left : Disk}

/-! ## What a run leaves -/

/-- The file is a database with these tables. -/
def Holds (crates : Crates) (path : String) (db : Database) (disk : Disk) : Prop :=
  ∃ raw, disk path = some raw ∧ crates.readDb raw = .ok db

/-- A decompressed store with these endpoints. -/
def Working (crates : Crates) (path : String) (endpoints : List EndpointRow) (disk : Disk) : Prop :=
  ∃ db, Holds crates path db disk ∧ db.endpoints = endpoints

/-- A file that decompresses to the image, and no decompressed one. -/
def PackedAs (crates : Crates) (path : String) (image : Bytes) (disk : Disk) : Prop :=
  disk path = none ∧ ∃ compressed, disk (zstSibling path) = some compressed ∧
    crates.decodeAll compressed = some image

/-- ... and the image is a store with these endpoints. -/
def Packed (crates : Crates) (path : String) (endpoints : List EndpointRow) (disk : Disk) : Prop :=
  ∃ image db, PackedAs crates path image disk ∧ crates.readDb image = .ok db ∧
    db.endpoints = endpoints

/-- The decompressed file is a beginning of the image, but not all of it. -/
def HalfWritten (path : String) (image : Bytes) (disk : Disk) : Prop :=
  ∃ raw, disk path = some raw ∧ raw <+: image ∧ raw ≠ image

/-- A further run succeeds and ends with the compressed store alone, with every endpoint in it. -/
def Recovers (crates : Crates) (service : Service) (path : String)
    (endpoints : List EndpointRow) (left : Disk) : Prop :=
  let rerun := main crates service .reliable [path] left
  rerun.result = .ok () ∧ rerun.final path = none ∧
    ∃ compressed image db, rerun.final (zstSibling path) = some compressed ∧
      crates.decodeAll compressed = some image ∧ crates.readDb image = .ok db ∧
      ∀ row ∈ endpoints, row ∈ db.endpoints

theorem zstSibling_ne (path : String) : zstSibling path ≠ path := by
  intro h
  have hlength := congrArg String.length h
  simp [zstSibling] at hlength

/-! ## Statements -/

variable {db db' : Database}

theorem safe_query {α : Type} (select : Database → α) :
    Safe (Holds crates path db) (query crates path select)
      (fun a disk => a = select db ∧ Holds crates path db disk) (Holds crates path db) := by
  apply Safe.atomically (fun _ h => h)
  intro disk h
  obtain ⟨raw, hraw, hdb⟩ := h
  exact ⟨select db, disk, by simp only [hraw, hdb], ⟨rfl, raw, hraw, hdb⟩, raw, hraw, hdb⟩

theorem safe_execute (hlawful : crates.Lawful) {change : Database → Except String Database}
    (hchange : change db = .ok db') :
    Safe (Holds crates path db) (execute crates path change) (fun _ => Holds crates path db')
      (fun disk => Holds crates path db disk ∨ Holds crates path db' disk) := by
  apply Safe.atomically (fun _ h => .inl h)
  intro disk h
  obtain ⟨raw, hraw, hdb⟩ := h
  have hafter : Holds crates path db' (disk.put path (crates.commit raw db')) :=
    ⟨_, put_self disk, hlawful.read_commit raw db db' hdb⟩
  exact ⟨(), _, by simp only [hraw, hdb, hchange], hafter, .inr hafter⟩

/-- A file that is not a database lets no statement through. -/
theorem stuck_query {α : Type} {select : Database → α} {P : Disk → Prop}
    (h : ∀ disk, P disk → ∃ raw, disk path = some raw ∧ ∃ err, crates.readDb raw = .error err) :
    Stuck P (query crates path select) := by
  apply Stuck.atomically
  intro disk hdisk
  obtain ⟨raw, hraw, err, herr⟩ := h disk hdisk
  exact ⟨err, by simp only [hraw, herr]⟩

theorem indexed_insert_delete {operationId other : String} {embedding : Bytes}
    (h : db.indexed other ∨ other = operationId) :
    ((db.delete operationId).insert operationId embedding).indexed other := by
  by_cases heq : other = operationId
  · simp [Database.indexed, Database.insert, heq]
  · have hother := h.resolve_right heq
    simp only [Database.indexed, Database.insert, Database.delete, List.mem_map, List.mem_append,
      List.mem_filter] at hother ⊢
    obtain ⟨entry, hentry, rfl⟩ := hother
    exact ⟨entry, .inl ⟨hentry, by simpa using heq⟩, rfl⟩

theorem not_indexed_delete (operationId : String) :
    ¬ (db.delete operationId).indexed operationId := by
  simp [Database.indexed, Database.delete]

theorem missing_eq_nil (h : ∀ row ∈ db.endpoints, db.indexed row.operationId) :
    db.missing = [] := by
  rw [Database.missing, List.filter_eq_nil_iff]
  intro operationId hmem
  obtain ⟨row, hrow, rfl⟩ := List.mem_map.mp hmem
  simpa using h row hrow

/-! ## The parts of a run -/

/-- The rows gone through are indexed, the endpoints are as they were. -/
def Indexed (crates : Crates) (path : String) (endpoints : List EndpointRow)
    (past : List (EndpointRow × Nat)) (disk : Disk) : Prop :=
  ∃ db, Holds crates path db disk ∧ db.endpoints = endpoints ∧
    ∀ entry ∈ past, db.indexed entry.1.operationId

theorem Indexed.working {past : List (EndpointRow × Nat)}
    (h : Indexed crates path endpoints past disk) : Working crates path endpoints disk := by
  obtain ⟨db, hdb, hendpoints, -⟩ := h
  exact ⟨db, hdb, hendpoints⟩

theorem safe_populateRow (hlawful : crates.Lawful) (hhealthy : service.Healthy)
    (past : List (EndpointRow × Nat)) (entry : EndpointRow × Nat) :
    Safe (Indexed crates path endpoints past) (populateRow crates service path entry)
      (fun _ => Indexed crates path endpoints (past ++ [entry]))
      (Working crates path endpoints) := by
  obtain ⟨vector, hvector⟩ := hhealthy.embeds entry.2 entry.1.text
  rw [populateRow, hvector]
  apply Safe.of_exists
  intro db
  let cleared := db.delete entry.1.operationId
  let filled := cleared.insert entry.1.operationId (vectorToLeBytes vector)
  have hdelete : deleteRow service entry.2 entry.1.operationId db = .ok cleared := by
    rw [deleteRow, hhealthy.deletes]
  have hinsert : insertRow crates service entry.2 entry.1.operationId (vectorToLeBytes vector)
      cleared = .ok filled := by
    rw [insertRow, hhealthy.inserts]
    exact if_neg (not_indexed_delete _)
  -- either statement leaves the endpoints as they are
  have hworking : ∀ db' : Database, db'.endpoints = db.endpoints → db.endpoints = endpoints →
      ∀ disk, Holds crates path db' disk → Working crates path endpoints disk :=
    fun db' hsame hendpoints disk h => ⟨db', h, hsame.trans hendpoints⟩
  intro disk h
  obtain ⟨hdb, hendpoints, hpast⟩ := h
  have hsafe : Safe (Holds crates path db) (do
      execute crates path (deleteRow service entry.2 entry.1.operationId)
      execute crates path
        (insertRow crates service entry.2 entry.1.operationId (vectorToLeBytes vector)))
      (fun _ => Holds crates path filled) (Working crates path endpoints) := by
    apply Safe.bind ((safe_execute hlawful hdelete).mono_cut fun disk h =>
      h.elim (hworking db rfl hendpoints disk) (hworking cleared rfl hendpoints disk))
    intro _
    exact (safe_execute hlawful hinsert).mono_cut fun disk h =>
      h.elim (hworking cleared rfl hendpoints disk) (hworking filled rfl hendpoints disk)
  obtain ⟨hcut, _, hresult, hfilled⟩ := hsafe disk hdb
  refine ⟨hcut, _, hresult, filled, hfilled, hendpoints, ?_⟩
  intro other hother
  apply indexed_insert_delete
  rcases List.mem_append.mp hother with hother | hother
  · exact .inl (hpast other hother)
  · rw [List.mem_singleton.mp hother]
    exact .inr rfl

theorem safe_populateOne (hlawful : crates.Lawful) (hhealthy : service.Healthy) :
    Safe (Working crates path endpoints) (populateOne crates service path)
      (fun _ => Indexed crates path endpoints endpoints.zipIdx) (Working crates path endpoints) := by
  apply Safe.bind (Q := fun rows disk => rows = endpoints ∧ Indexed crates path endpoints [] disk)
  · apply Safe.of_exists
    intro db disk h
    obtain ⟨hdb, rfl⟩ := h
    obtain ⟨hcut, rows, hresult, rfl, hdb'⟩ := safe_query (·.endpoints) disk hdb
    exact ⟨fun t ht => ⟨db, hcut t ht, rfl⟩, _, hresult, rfl, db, hdb', rfl, by simp⟩
  · intro rows
    apply Safe.of_and
    rintro rfl
    apply Safe.bind
    · exact Safe.forM (fun _ _ h => h.working) fun past entry _ _ =>
        safe_populateRow hlawful hhealthy past entry
    · intro _
      exact Safe.pure (fun _ h => h) fun _ h => h.working

theorem safe_missingOperationIds :
    Safe (Indexed crates path endpoints endpoints.zipIdx) (missingOperationIds crates path)
      (fun missing disk => missing = [] ∧ Working crates path endpoints disk)
      (Working crates path endpoints) := by
  intro disk h
  obtain ⟨db, hdb, rfl, hall⟩ := h
  obtain ⟨hcut, missing, hresult, rfl, hdb'⟩ := safe_query (·.missing) disk hdb
  refine ⟨fun t ht => ⟨db, hcut t ht, rfl⟩, _, hresult, missing_eq_nil ?_, db, hdb', rfl⟩
  intro row hrow
  obtain ⟨i, hi⟩ := List.getElem?_of_mem hrow
  exact hall (row, i) (List.mk_mem_zipIdx_iff_getElem?.mpr hi)

/-- The compressed file may be half written as long as the decompressed one is there. -/
theorem safe_recompressAndRemoveRaw (hlawful : crates.Lawful) :
    Safe (Working crates path endpoints) (recompressAndRemoveRaw crates .reliable path)
      (fun _ => Packed crates path endpoints)
      (fun disk => Working crates path endpoints disk ∨ Packed crates path endpoints disk) := by
  have hread : ∀ disk, Working crates path endpoints disk → ∃ raw, disk path = some raw := by
    intro disk h
    obtain ⟨_, ⟨raw, hraw, -⟩, -⟩ := h
    exact ⟨raw, hraw⟩
  apply Safe.bind (safe_read hread fun _ h => .inl h)
  intro raw
  obtain ⟨compressed, hencode, hdecode⟩ := hlawful.decode_encode raw zstdLevel
  rw [hencode]
  have hput : ∀ (disk : Disk) contents, Working crates path endpoints disk ∧ disk path = some raw →
      Working crates path endpoints (disk.put (zstSibling path) contents) ∧
        (disk.put (zstSibling path) contents) path = some raw := by
    intro disk contents h
    obtain ⟨⟨db, ⟨raw', hraw', hdb⟩, hendpoints⟩, hraw⟩ := h
    have hsame : (disk.put (zstSibling path) contents) path = disk path :=
      put_of_ne disk (zstSibling_ne path).symm
    exact ⟨⟨db, ⟨raw', hsame.trans hraw', hdb⟩, hendpoints⟩, hsame.trans hraw⟩
  apply Safe.bind (Q := fun _ disk => (Working crates path endpoints disk ∧ disk path = some raw) ∧
    disk (zstSibling path) = some compressed)
  · apply safe_write
    · intro disk h
      exact ⟨.inl h.1, fun written _ => .inl (hput disk written h).1⟩
    · intro disk h
      exact ⟨hput disk compressed h, put_self disk⟩
  · intro _
    -- from the removal on the compressed file is all there is
    have hpacked : ∀ disk : Disk, (Working crates path endpoints disk ∧ disk path = some raw) ∧
        disk (zstSibling path) = some compressed → Packed crates path endpoints (disk.erase path) := by
      intro disk h
      obtain ⟨⟨⟨db, ⟨raw', hraw', hdb⟩, hendpoints⟩, hraw⟩, hcompressed⟩ := h
      obtain rfl : raw' = raw := Option.some.inj (hraw'.symm.trans hraw)
      exact ⟨raw', db, ⟨erase_self disk, compressed,
        (erase_of_ne disk (zstSibling_ne path)).trans hcompressed, hdecode⟩, hdb, hendpoints⟩
    apply safe_remove
    · intro disk h
      rw [h.1.2]
      simp
    · intro disk h
      exact ⟨.inl h.1.1, .inr (hpacked disk h)⟩
    · exact hpacked

/-- A decompressed store is the working copy. -/
theorem safe_ensureRawDb_of_working :
    Safe (Working crates path endpoints) (ensureRawDb crates .reliable path)
      (fun _ => Working crates path endpoints) (Working crates path endpoints) := by
  intro disk h
  obtain ⟨db, ⟨raw, hraw, hdb⟩, hendpoints⟩ := h
  have hworking : Working crates path endpoints disk := ⟨db, ⟨raw, hraw, hdb⟩, hendpoints⟩
  have hpresent : (pathExists path disk : Run Disk String Bool).result = .ok true := by
    simp [pathExists, hraw]
  rw [ensureRawDb, bind_of_ok hpresent]
  refine ⟨fun t ht => ?_, (), rfl, hworking⟩
  obtain rfl : t = disk := by simpa [pathExists, Pure.pure, done] using ht
  exact hworking

/-- While the decompressed file is written its beginning is there, and nothing else is. -/
theorem safe_ensureRawDb_of_packedAs (hdb : crates.readDb image = .ok db) :
    Safe (PackedAs crates path image) (ensureRawDb crates .reliable path)
      (fun _ => Working crates path db.endpoints)
      (fun disk => PackedAs crates path image disk ∨ Working crates path db.endpoints disk ∨
        HalfWritten path image disk) := by
  apply Safe.bind (Q := fun present disk => present = false ∧ PackedAs crates path image disk)
  · intro disk h
    refine ⟨fun t ht => ?_, _, rfl, ?_, h⟩
    · rw [List.mem_singleton.mp ht]
      exact .inl h
    · simp [h.1]
  · rintro present disk ⟨rfl, h⟩
    have hread : ∀ disk, PackedAs crates path image disk →
        ∃ compressed, disk (zstSibling path) = some compressed := fun disk h =>
      let ⟨_, compressed, hcompressed, _⟩ := h
      ⟨compressed, hcompressed⟩
    refine Safe.bind (safe_read hread fun _ h => .inl h) ?_ disk h
    rintro compressed disk ⟨h, hcompressed⟩
    obtain ⟨hnone, compressed', hcompressed', hdecode⟩ := h
    obtain rfl : compressed' = compressed := Option.some.inj (hcompressed'.symm.trans hcompressed)
    rw [hdecode]
    refine safe_write (P := PackedAs crates path image) ?_ ?_ disk ⟨hnone, _, hcompressed, hdecode⟩
    · intro disk h
      refine ⟨.inl h, fun written hwritten => .inr ?_⟩
      by_cases heq : written = image
      · exact .inl ⟨db, ⟨written, put_self disk, heq ▸ hdb⟩, rfl⟩
      · exact .inr ⟨written, put_self disk, hwritten, heq⟩
    · intro disk _
      exact ⟨db, ⟨image, put_self disk, hdb⟩, rfl⟩

/-! ## Runs -/

/-- What follows the decompression succeeds from a decompressed store. -/
theorem safe_main_of_ensureRawDb (hlawful : crates.Lawful) (hhealthy : service.Healthy)
    {P C : Disk → Prop} (hC : ∀ disk, Working crates path endpoints disk → C disk)
    (hpacked : ∀ disk, Packed crates path endpoints disk → C disk)
    (hensure : Safe P (ensureRawDb crates .reliable path)
      (fun _ => Working crates path endpoints) C) :
    Safe P (main crates service .reliable [path]) (fun _ => Packed crates path endpoints) C := by
  have htarget : Safe P (populateTarget crates service .reliable path)
      (fun missing disk => missing = [] ∧ Packed crates path endpoints disk) C := by
    apply Safe.bind hensure
    intro _
    apply Safe.bind ((safe_populateOne hlawful hhealthy).mono_cut hC)
    intro _
    apply Safe.bind (safe_missingOperationIds.mono_cut hC)
    intro missing
    apply Safe.of_and
    rintro rfl
    apply Safe.bind ((safe_recompressAndRemoveRaw hlawful).mono_cut fun disk h =>
      h.elim (hC disk) (hpacked disk))
    intro _
    exact Safe.pure (fun _ h => ⟨rfl, h⟩) hpacked
  -- the loop has one turn
  apply Safe.bind (Q := fun hadMismatch disk => hadMismatch = false ∧
    Packed crates path endpoints disk)
  · apply Safe.bind (Q := fun hadMismatch disk => hadMismatch = false ∧
      Packed crates path endpoints disk)
    · apply Safe.bind htarget
      intro missing
      apply Safe.of_and
      rintro rfl
      exact Safe.pure (fun _ h => ⟨rfl, h⟩) hpacked
    · intro hadMismatch
      exact Safe.pure (fun _ h => h) fun disk h => hpacked disk h.2
  · intro hadMismatch
    apply Safe.of_and
    rintro rfl
    exact Safe.pure (fun _ h => h) hpacked

/-- A run from a compressed store. -/
theorem safe_main_of_packedAs (hlawful : crates.Lawful) (hhealthy : service.Healthy)
    (hdb : crates.readDb image = .ok db) :
    Safe (PackedAs crates path image) (main crates service .reliable [path])
      (fun _ => Packed crates path db.endpoints)
      (fun disk => Packed crates path db.endpoints disk ∨ Working crates path db.endpoints disk ∨
        HalfWritten path image disk) := by
  apply safe_main_of_ensureRawDb hlawful hhealthy (fun _ h => .inr (.inl h)) fun _ h => .inl h
  apply (safe_ensureRawDb_of_packedAs hdb).mono_cut
  intro disk h
  exact h.imp_left fun h => ⟨image, db, h, hdb, rfl⟩

/-- A run from a decompressed store. -/
theorem safe_main_of_working (hlawful : crates.Lawful) (hhealthy : service.Healthy) :
    Safe (Working crates path endpoints) (main crates service .reliable [path])
      (fun _ => Packed crates path endpoints)
      (fun disk => Packed crates path endpoints disk ∨ Working crates path endpoints disk) :=
  safe_main_of_ensureRawDb hlawful hhealthy (fun _ h => .inr h) (fun _ h => .inl h)
    (safe_ensureRawDb_of_working.mono_cut fun _ h => .inr h)

theorem recovers_of_safe {P C : Disk → Prop}
    (h : Safe P (main crates service .reliable [path]) (fun _ => Packed crates path endpoints) C)
    (hleft : P left) : Recovers crates service path endpoints left := by
  obtain ⟨-, _, hresult, image, db, ⟨hnone, compressed, hcompressed, hdecode⟩, hdb, rfl⟩ := h left hleft
  exact ⟨hresult, hnone, compressed, image, db, hcompressed, hdecode, hdb, fun _ h => h⟩

/-- A file that is there and is no database stops every run. -/
theorem stuck_main (service : Service) {P : Disk → Prop}
    (h : ∀ disk, P disk → ∃ raw, disk path = some raw ∧ ∃ err, crates.readDb raw = .error err) :
    Stuck P (main crates service .reliable [path]) := by
  have hensure : Safe P (ensureRawDb crates .reliable path) (fun _ => P) (fun _ => True) := by
    intro disk hdisk
    obtain ⟨raw, hraw, -⟩ := h disk hdisk
    have hpresent : (pathExists path disk : Run Disk String Bool).result = .ok true := by
      simp [pathExists, hraw]
    rw [ensureRawDb, bind_of_ok hpresent]
    exact ⟨fun _ _ => trivial, (), rfl, hdisk⟩
  apply Stuck.bind
  apply Stuck.bind
  apply Stuck.bind
  apply Stuck.bind_of_safe hensure
  intro _
  apply Stuck.bind
  apply Stuck.bind
  exact stuck_query h

/-- What is half written stays so: no later run gets past it. -/
theorem HalfWritten.not_recovers (hlawful : crates.Lawful) (himage : crates.readDb image = .ok db)
    (h : HalfWritten path image left) : ¬ Recovers crates service path endpoints left := by
  intro hrecovers
  obtain ⟨raw, hraw, hprefix, hne⟩ := h
  obtain ⟨err, herr⟩ := hlawful.truncated image db raw himage hprefix hne
  have hunusable : ∀ disk, disk = left →
      ∃ raw, disk path = some raw ∧ ∃ err, crates.readDb raw = .error err := by
    rintro disk rfl
    exact ⟨raw, hraw, err, herr⟩
  obtain ⟨err', hresult⟩ := stuck_main service hunusable left rfl
  exact absurd (hrecovers.1.symm.trans hresult) (by simp)

/-- Every beginning of the decompressed store is there at some moment. -/
theorem mem_visited_main (hdisk : PackedAs crates path image disk) {written : Bytes}
    (hwritten : written <+: image) :
    disk.put path written ∈ (main crates service .reliable [path] disk).visited := by
  obtain ⟨hnone, compressed, hcompressed, hdecode⟩ := hdisk
  have hpresent : (pathExists path disk : Run Disk String Bool).result = .ok false := by
    simp [pathExists, hnone]
  have hread : (Storage.reliable.read (zstSibling path) ("neither '" ++ path ++ "' nor '" ++
      zstSibling path ++ "' exists") disk : Run Disk String Bytes) =
      ⟨[disk, disk], .ok compressed, disk⟩ := by
    rw [Storage.read_of_readable rfl]
    simp only [Files.read, atomically, hcompressed]
  have hensure : disk.put path written ∈ (ensureRawDb crates .reliable path disk).visited := by
    apply mem_visited_bind_of_ok hpresent
    apply mem_visited_bind_of_ok (a := compressed)
    · show (Storage.reliable.read _ _ disk).result = _
      rw [hread]
    · rw [hdecode, show (pathExists path disk : Run Disk String Bool).final = disk from rfl, hread]
      apply mem_visited_bind_of_ok (a := ()) rfl
      apply List.mem_map.mpr
      refine ⟨written, (List.mem_inits ..).mpr hwritten, ?_⟩
      show (disk.put path []).put path (((disk.put path []) path).getD [] ++ written) = _
      rw [put_self, Option.getD_some, List.nil_append, put_put]
  exact mem_visited_bind (mem_visited_bind (mem_visited_bind (mem_visited_bind hensure)))

/-- **Interruptions.** A run on a compressed store is cut off anywhere. The next run on what is
left succeeds, and ends with a compressed store of every endpoint and no decompressed one, if
and only if no decompressed store is left that is only half written. -/
theorem rerun_recovers_iff (crates : Crates) (service : Service) (path : String) (image : Bytes)
    (original : Database) (disk left : Disk) (hlawful : crates.Lawful) (hhealthy : service.Healthy)
    (himage : crates.readDb image = .ok original) (hdisk : PackedAs crates path image disk)
    (hcut : left ∈ (main crates service .reliable [path] disk).visited) :
    Recovers crates service path original.endpoints left ↔ ¬ HalfWritten path image left := by
  constructor
  · intro hrecovers hhalf
    exact hhalf.not_recovers hlawful himage hrecovers
  · intro hwhole
    obtain ⟨hcuts, -⟩ := safe_main_of_packedAs hlawful hhealthy himage disk hdisk
    rcases hcuts left hcut with hpacked | hworking | hhalf
    · obtain ⟨image', db, hpacked, hdb, hendpoints⟩ := hpacked
      rw [← hendpoints]
      exact recovers_of_safe (safe_main_of_packedAs hlawful hhealthy hdb) hpacked
    · exact recovers_of_safe (safe_main_of_working hlawful hhealthy) hworking
    · exact absurd hhalf hwhole

end Runs

/-! ## A store of one endpoint

A database is kept as a number in unary: as many ones and a zero. A beginning of it lacks
the zero. -/

namespace Unary

def ofText (text : String) : List ℕ := text.toList.map Char.toNat

def toText (codes : List ℕ) : String := String.ofList (codes.map Char.ofNat)

theorem toText_ofText (text : String) : toText (ofText text) = text := by
  have hchars : Char.ofNat ∘ Char.toNat = id := funext Char.ofNat_toNat
  simp [toText, ofText, hchars]

def ofRow (row : EndpointRow) : List ℕ × List ℕ × List ℕ × Option (List ℕ) × Option (List ℕ) :=
  (ofText row.operationId, ofText row.path, ofText row.method, row.summary.map ofText,
    row.description.map ofText)

def toRow : List ℕ × List ℕ × List ℕ × Option (List ℕ) × Option (List ℕ) → EndpointRow
  | (operationId, path, method, summary, description) =>
      ⟨toText operationId, toText path, toText method, summary.map toText, description.map toText⟩

theorem toRow_ofRow (row : EndpointRow) : toRow (ofRow row) = row := by
  simp [toRow, ofRow, toText_ofText, Function.comp_def]

def number (db : Database) : ℕ :=
  Encodable.encode (db.endpoints.map ofRow,
    db.semanticEndpoints.map fun entry => (ofText entry.1, entry.2.map UInt8.toNat))

def database (n : ℕ) : Option Database :=
  (Encodable.decode n : Option (List (List ℕ × List ℕ × List ℕ × Option (List ℕ) × Option (List ℕ)) ×
    List (List ℕ × List ℕ))).map fun tables =>
      ⟨tables.1.map toRow, tables.2.map fun entry => (toText entry.1, entry.2.map UInt8.ofNat)⟩

theorem database_number (db : Database) : database (number db) = some db := by
  simp [database, number, toRow_ofRow, toText_ofText, Function.comp_def]

def image (db : Database) : Bytes := List.replicate (number db) 1 ++ [0]

def readDb (raw : Bytes) : Except String Database :=
  if raw = List.replicate (raw.length - 1) 1 ++ [0] then
    match database (raw.length - 1) with
    | some db => .ok db
    | none => .error "file is not a database"
  else .error "file is not a database"

theorem readDb_image (db : Database) : readDb (image db) = .ok db := by
  simp [readDb, image, database_number]

def crates : Crates where
  encodeAll raw _ := some raw
  decodeAll compressed := some compressed
  readDb := readDb
  commit _ db := image db
  uniqueConstraint _ := "UNIQUE constraint failed on semantic_endpoints primary key"

theorem crates_readDb (db : Database) : crates.readDb (image db) = .ok db := readDb_image db

theorem crates_lawful : crates.Lawful where
  decode_encode raw _ := ⟨raw, rfl, rfl⟩
  read_commit _ _ db _ := readDb_image db
  truncated raw db start h hprefix hne := by
    refine ⟨"file is not a database", if_neg ?_⟩
    intro hstart
    -- a proper beginning has ones only
    have hraw : raw = List.replicate (raw.length - 1) 1 ++ [0] := by
      by_contra hnot
      simp [crates, readDb, if_neg hnot] at h
    rw [hraw] at hprefix hne
    have hones := ((List.prefix_concat_iff ..).mp hprefix).resolve_left hne
    have hzero : (0 : UInt8) ∈ start := by
      rw [hstart]
      simp
    exact absurd (List.eq_of_mem_replicate (hones.subset hzero)) (by decide)

def service : Service where
  embed _ _ := .ok [0x3f800000]
  delete _ := none
  insert _ := none

theorem service_healthy : service.Healthy := ⟨fun _ _ => ⟨_, rfl⟩, fun _ => rfl, fun _ => rfl⟩

def original : Database :=
  ⟨[⟨"getIncident", "/incidents/{id}", "GET", some "Get an incident", none⟩], []⟩

/-- Only the compressed store is there. -/
def disk : Disk := fun file => if file = "mcp_store.db.zst" then some (image original) else none

theorem disk_packed : PackedAs crates "mcp_store.db" (image original) disk :=
  ⟨rfl, image original, rfl, rfl⟩

/-- Cut off right after the decompressed file is created. -/
theorem rerun_recovers_fails :
    ∃ left ∈ (main crates service .reliable ["mcp_store.db"] disk).visited,
    ¬ Recovers crates service "mcp_store.db" original.endpoints left := by
  refine ⟨_, mem_visited_main disk_packed (List.nil_prefix), ?_⟩
  have hhalf : HalfWritten "mcp_store.db" (image original) (disk.put "mcp_store.db" []) :=
    ⟨[], put_self disk, List.nil_prefix, by simp [image]⟩
  exact hhalf.not_recovers crates_lawful (crates_readDb original)

/-- Cut off right after its last byte. -/
theorem rerun_recovers_iff_decompressed :
    Recovers crates service "mcp_store.db" original.endpoints
      (disk.put "mcp_store.db" (image original)) := by
  apply (rerun_recovers_iff crates service "mcp_store.db" (image original) original disk _
    crates_lawful service_healthy (crates_readDb original) disk_packed
    (mem_visited_main disk_packed List.prefix_rfl)).mpr
  rintro ⟨raw, hraw, -, hne⟩
  rw [put_self] at hraw
  exact hne (Option.some.inj hraw).symm

end Unary

end TopdeskMcp.Theorems.Populate
