import TopdeskMcp.Data.Store
import TopdeskMcp.Lib.Crash

/-!
# Filling in the embeddings (`bin/populate_embeddings.rs`)

A store is kept as `path.zst`. Each target is decompressed to `path`, gets the
embedding of every operation, and is compressed again; the decompressed file is removed.
All of this is a program on files that can be cut off (`Crash.Prog`): an SQL statement is
a single step, a file is written byte by byte.

zstd and SQLite are parameters (`Crates`), and so is what can go wrong while a row is
indexed (`Service`) and with the files (`Storage`; a run reads, writes and removes each of
them at most once). Of a database the two tables that are used are modelled. What is
printed is left out, and of an error all but the outermost context.
-/

namespace TopdeskMcp

open Crash Crash.Prog Crash.Files

namespace Populate

structure EndpointRow where
  operationId : String
  path : String
  method : String
  summary : Option String
  description : Option String
  deriving DecidableEq

/-- The tables `endpoints` and `semantic_endpoints`. -/
structure Database where
  endpoints : List EndpointRow
  semanticEndpoints : List (String × Bytes)
  deriving DecidableEq

/-- What SQLite reads in a file and what it leaves there once a statement has changed the
tables; texts of its errors. -/
structure Crates where
  encodeAll : Bytes → Int → Option Bytes
  decodeAll : Bytes → Option Bytes
  readDb : Bytes → Except String Database
  commit : Bytes → Database → Bytes
  uniqueConstraint : String → String

/-- A file that is not whole is of no use. -/
structure Crates.Lawful (crates : Crates) : Prop where
  decode_encode : ∀ raw level, ∃ compressed,
    crates.encodeAll raw level = some compressed ∧ crates.decodeAll compressed = some raw
  read_commit : ∀ raw db db', crates.readDb raw = .ok db →
    crates.readDb (crates.commit raw db') = .ok db'
  truncated : ∀ raw db start, crates.readDb raw = .ok db → start <+: raw → start ≠ raw →
    ∃ err, crates.readDb start = .error err

/-- The embedding of a text, as the bits of its numbers, and the errors of the two statements;
all for the row of the given number. -/
structure Service where
  embed : Nat → String → Except String (List UInt32)
  delete : Nat → Option String
  insert : Nat → Option String

/-- Nothing goes wrong. -/
structure Service.Healthy (service : Service) : Prop where
  embeds : ∀ i text, ∃ vector, service.embed i text = .ok vector
  deletes : ∀ i, service.delete i = none
  inserts : ∀ i, service.insert i = none

abbrev Disk := Files String

def zstdLevel : Int := 19

def zstSibling (path : String) : String := path ++ ".zst"

variable (crates : Crates) (service : Service) (storage : Storage String)

/-- A file that exists is taken for the store, whatever it holds. -/
def ensureRawDb (path : String) : Prog Disk String Unit := do
  let present ← pathExists path
  if present then pure () else do
    let compressed ← storage.read (zstSibling path)
      ("neither '" ++ path ++ "' nor '" ++ zstSibling path ++ "' exists")
    match crates.decodeAll compressed with
    | none => fail ("failed to decompress '" ++ zstSibling path ++ "'")
    | some decompressed =>
        storage.write path decompressed ("failed to write decompressed '" ++ path ++ "'")
          ("failed to write decompressed '" ++ path ++ "'")

def recompressAndRemoveRaw (path : String) : Prog Disk String Unit := do
  let raw ← storage.read path ("failed to read '" ++ path ++ "'")
  match crates.encodeAll raw zstdLevel with
  | none => fail ("failed to zstd-compress '" ++ path ++ "'")
  | some compressed => do
    storage.write (zstSibling path) compressed ("failed to create '" ++ zstSibling path ++ "'")
      ("failed to write '" ++ zstSibling path ++ "'")
    storage.remove path ("failed to remove raw '" ++ path ++ "' after recompressing")

def leBytes (value : UInt32) : Bytes :=
  [value.toUInt8, (value >>> 8).toUInt8, (value >>> 16).toUInt8, (value >>> 24).toUInt8]

def vectorToLeBytes (vector : List UInt32) : Bytes := vector.flatMap leBytes

/-! ## Statements -/

/-- A query on a connection of `open_store_read_write`. -/
def query {α : Type} (path : String) (select : Database → α) : Prog Disk String α :=
  atomically fun disk => match disk path with
    | none => .error ("failed to open '" ++ path ++ "'")
    | some raw => match crates.readDb raw with
      | .error err => .error err
      | .ok db => .ok (select db, disk)

/-- A statement that changes the tables, committed when it is done. -/
def execute (path : String) (change : Database → Except String Database) :
    Prog Disk String Unit :=
  atomically fun disk => match disk path with
    | none => .error ("failed to open '" ++ path ++ "'")
    | some raw => match crates.readDb raw with
      | .error err => .error err
      | .ok db => match change db with
        | .error err => .error err
        | .ok db' => .ok ((), disk.put path (crates.commit raw db'))

namespace Database

def delete (db : Database) (operationId : String) : Database :=
  { db with semanticEndpoints := db.semanticEndpoints.filter (·.1 ≠ operationId) }

def insert (db : Database) (operationId : String) (embedding : Bytes) : Database :=
  { db with semanticEndpoints := db.semanticEndpoints ++ [(operationId, embedding)] }

def indexed (db : Database) (operationId : String) : Prop :=
  operationId ∈ db.semanticEndpoints.map (·.1)

instance (db : Database) (operationId : String) : Decidable (db.indexed operationId) :=
  inferInstanceAs (Decidable (_ ∈ _))

/-- The rows of the left join without a partner. -/
def missing (db : Database) : List String :=
  (db.endpoints.map (·.operationId)).filter fun operationId => ¬ db.indexed operationId

end Database

/-- The text that is embedded. -/
def EndpointRow.text (row : EndpointRow) : String :=
  " ".intercalate [some row.method, some row.path, row.summary, row.description].reduceOption

def deleteRow (i : Nat) (operationId : String) (db : Database) : Except String Database :=
  match service.delete i with
  | some err => .error err
  | none => .ok (db.delete operationId)

/-- The table has no conflict resolution: a second row of an id is an error. -/
def insertRow (i : Nat) (operationId : String) (embedding : Bytes) (db : Database) :
    Except String Database :=
  match service.insert i with
  | some err => .error err
  | none =>
      if db.indexed operationId then .error (crates.uniqueConstraint operationId)
      else .ok (db.insert operationId embedding)

/-- The body of the loop of `populate_one`, for a row and its number. -/
def populateRow (path : String) (entry : EndpointRow × Nat) : Prog Disk String Unit :=
  match service.embed entry.2 entry.1.text with
  | .error err =>
      fail ("failed to compute embedding for '" ++ entry.1.operationId ++ "' in '" ++ path ++
        "': " ++ err)
  | .ok vector => do
      execute crates path (deleteRow service entry.2 entry.1.operationId)
      execute crates path
        (insertRow crates service entry.2 entry.1.operationId (vectorToLeBytes vector))

def populateOne (path : String) : Prog Disk String Nat := do
  let rows ← query crates path (·.endpoints)
  rows.zipIdx.forM (populateRow crates service path)
  pure rows.length

def missingOperationIds (path : String) : Prog Disk String (List String) :=
  query crates path (·.missing)

/-- One turn of the loop of `main`: what the parity check reports missing. -/
def populateTarget (path : String) : Prog Disk String (List String) := do
  ensureRawDb crates storage path
  let _count ← populateOne crates service path
  let missing ← missingOperationIds crates path
  recompressAndRemoveRaw crates storage path
  pure missing

def main (targets : List String) : Prog Disk String Unit := do
  let hadMismatch ← targets.foldlM (fun hadMismatch path => do
    let missing ← populateTarget crates service storage path
    pure (hadMismatch || !missing.isEmpty)) false
  if hadMismatch then
    fail ("embedding population incomplete: one or more stores have semantic_endpoints " ++
      "row counts below their endpoints row counts (see errors above)")
  else pure ()

/-- The stores to be populated, by the arguments after the program's name. -/
def targetsFrom (args : List String) : List String :=
  match args.head? with
  | none => versionStoreFiles.map (·.2)
  | some arg => if arg = "--all" then versionStoreFiles.map (·.2) else [arg]

end Populate

end TopdeskMcp
