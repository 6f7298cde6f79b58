import TopdeskMcp.Data.Store

/-!
# One call of `resolve_store_path` (`data/store.rs`)

What one call does to the temp directory, the path cache `EXTRACTED` and the counter `UNIQUE`,
for every way in which its steps can fail. `Store` has these steps for threads of several
processes; here nobody else moves. Names are those of files in the temp directory, and a path is
such a name.
-/

namespace TopdeskMcp

namespace StorePath

/-- What comes of `std::fs::write`: the file is created, and then its contents are written. -/
inductive WriteOutcome where
  | written
  | notCreated
  | cut (count : Nat)
  deriving DecidableEq

/-- Which steps of a call fail; a rename is attempted up to six times. -/
structure Faults where
  dirCreated : Bool
  write : WriteOutcome
  renamed : Nat → Bool

/-- A process of a release. -/
structure Host where
  pid : Nat
  tempDir : String
  versionStoreBytes : String → Option Bytes
  decodeAll : Bytes → Option Bytes

structure State where
  dir : Store.Dir
  extracted : String → Option String
  unique : UInt64

def Host.payload (host : Host) (apiVersion : String) : Option Bytes :=
  (host.versionStoreBytes apiVersion).bind host.decodeAll

/-- The retry loop, from one attempt on and with so many left after it. -/
def moves (renamed : Nat → Bool) (renameAttempts : Nat) : Nat → Bool
  | 0 => renamed renameAttempts
  | left + 1 => renamed renameAttempts || moves renamed (renameAttempts + 1) left

def unknownVersion (apiVersion : String) : String :=
  "unknown api_version '" ++ apiVersion ++
    "' — run the 'versions' command to see what's available"

/-- The write to the temporary file, and the rename. -/
def extract (host : Host) (faults : Faults) (apiVersion file : String) (decompressed : Bytes)
    (s : State) : Except String String × State :=
  let tmp := tmpPath file host.pid s.unique
  let s := { s with unique := s.unique + 1 }
  let extractError := "failed to extract embedded store data to '" ++ host.tempDir ++ "/" ++ tmp ++ "'"
  match faults.write with
  | .notCreated => (.error extractError, s)
  | .cut count =>
      (.error extractError,
        { s with dir := Function.update s.dir tmp (some (decompressed.take count)) })
  | .written =>
      if moves faults.renamed 0 5 then
        (.ok file, { s with
          dir := Function.update (Function.update s.dir tmp none) file (some decompressed)
          extracted := Function.update s.extracted apiVersion (some file) })
      else
        (.error ("failed to move extracted store data into place at '" ++ host.tempDir ++ "/" ++
            file ++ "'"),
          { s with dir := Function.update s.dir tmp (some decompressed) })

def resolveStorePath (host : Host) (faults : Faults) (apiVersion : String) (s : State) :
    Except String String × State :=
  match s.extracted apiVersion with
  | some path => (.ok path, s)
  | none => match storeFile apiVersion with
    | none => (.error (unknownVersion apiVersion), s)
    | some file => match host.versionStoreBytes apiVersion with
      | none => (.error ("no embedded store data for api_version '" ++ apiVersion ++ "'"), s)
      | some bytes =>
          if faults.dirCreated then
            match host.decodeAll bytes with
            | none =>
                (.error ("failed to decompress embedded store data for api_version '" ++
                  apiVersion ++ "'"), s)
            | some decompressed => extract host faults apiVersion file decompressed s
          else (.error ("failed to create temp dir '" ++ host.tempDir ++ "'"), s)

structure Call where
  faults : Faults
  apiVersion : String

end StorePath

/-- Calls of one process, one after another. -/
def storePath (host : StorePath.Host) : Trace.Lts StorePath.State StorePath.Call where
  init s := ∀ apiVersion, s.extracted apiVersion = none
  step s call := some (StorePath.resolveStorePath host call.faults call.apiVersion s).2

end TopdeskMcp
