import TopdeskMcp.Lib.Table
import TopdeskMcp.Theorems.Populate

/-!
# What indexing leaves

`populate_one` goes through the endpoints: each is embedded, its old row is deleted, and its new
row is inserted. If nothing fails the table has one row for each endpoint, and doing it again
changes nothing. If something fails, what is gone through is done and the rest is as it was,
except that an insert that fails comes after its delete.
-/

namespace TopdeskMcp.Theorems.Indexing

open TopdeskMcp TopdeskMcp.Populate Crash Crash.Prog Crash.Files

open TopdeskMcp.Theorems.Populate (Holds safe_query safe_execute not_indexed_delete missing_eq_nil)

/-- What can fail of a row. -/
inductive Stage where
  | embed
  | delete
  | insert
  deriving DecidableEq

/-- The stage at which a row fails, if it does. -/
def failure (service : Service) (entry : EndpointRow × Nat) : Option Stage :=
  match service.embed entry.2 entry.1.text with
  | .error _ => some .embed
  | .ok _ =>
      if (service.delete entry.2).isSome then some .delete
      else if (service.insert entry.2).isSome then some .insert
      else none

/-- The row that is inserted. -/
def newRow (service : Service) (entry : EndpointRow × Nat) : String × Bytes :=
  (entry.1.operationId,
    match service.embed entry.2 entry.1.text with
    | .error _ => []
    | .ok vector => vectorToLeBytes vector)

/-- The tables once rows are replaced. -/
def replaced (db : Database) (rows : List (String × Bytes)) : Database :=
  { db with semanticEndpoints := Table.putAll db.semanticEndpoints rows }

/-- The tables once some of the endpoints are gone through. -/
def indexed (service : Service) (db : Database) (entries : List (EndpointRow × Nat)) : Database :=
  replaced db (entries.map (newRow service))

/-- What a row that fails leaves of the tables. -/
def Stage.leaves (stage : Stage) (operationId : String) (db : Database) : Database :=
  if stage = .insert then db.delete operationId else db

/-- What is embedded is a matter of the text. -/
def Embeds (service : Service) (embedding : String → List UInt32) : Prop :=
  ∀ i text vector, service.embed i text = .ok vector → vector = embedding text

/-- The tables have one row for each endpoint, and the rows of other ids as they were. -/
structure Complete (embedding : String → List UInt32) (db db' : Database) : Prop where
  endpoints : db'.endpoints = db.endpoints
  rows : ∀ row ∈ db.endpoints, db'.semanticEndpoints.filter (·.1 = row.operationId) =
    [(row.operationId, vectorToLeBytes (embedding row.text))]
  others : ∀ operationId ∉ db.endpoints.map (·.operationId),
    db'.semanticEndpoints.filter (·.1 = operationId) =
      db.semanticEndpoints.filter (·.1 = operationId)

/-- What `populate_one` with the tables `db` comes to when it succeeds. -/
structure Parity (crates : Crates) (service : Service) (embedding : String → List UInt32)
    (path : String) (db : Database) (count : Nat) (disk : Disk) : Prop where
  counted : count = db.endpoints.length
  complete : ∃ db', Holds crates path db' disk ∧ Complete embedding db db'
  missing : (missingOperationIds crates path disk).result = .ok []
  /-- It succeeds again. -/
  repeats : (populateOne crates service path disk).result = .ok count
  /-- Whenever it does, whatever else goes wrong at other times, the tables stay the same. -/
  unchanged : ∀ later : Service, Embeds later embedding → ∀ count',
    (populateOne crates later path disk).result = .ok count' →
    ∃ db', Holds crates path db' disk ∧
      Holds crates path db' (populateOne crates later path disk).final

/-- A call that fails leaves a row of every id that had one. -/
def LosesNothing (crates : Crates) (service : Service) (path : String) (db : Database)
    (disk : Disk) : Prop :=
  ∀ err, (populateOne crates service path disk).result = .error err →
    ∀ operationId, db.indexed operationId →
      ∃ db', Holds crates path db' (populateOne crates service path disk).final ∧
        db'.indexed operationId

/-- What fails first is the insert of an endpoint that has a row. -/
def InsertFails (service : Service) (db : Database) : Prop :=
  ∃ past entry rest, db.endpoints.zipIdx = past ++ entry :: rest ∧
    (∀ e ∈ past, failure service e = none) ∧ failure service entry = some .insert ∧
    db.indexed entry.1.operationId

section

variable {crates : Crates} {service : Service} {path : String} {disk : Disk} {db db' : Database}
  {entry : EndpointRow × Nat} {entries : List (EndpointRow × Nat)}

/-! ## One row -/

theorem holds_execute (hlawful : crates.Lawful) (db' : Database)
    {change : Database → Except String Database} (h : change db = .ok db') :
    Safe (Holds crates path db) (execute crates path change) (fun _ => Holds crates path db')
      (fun _ => True) :=
  (safe_execute hlawful h).mono_cut fun _ _ => trivial

theorem fails_execute {change : Database → Except String Database} {err : String}
    (h : change db = .error err) :
    Fails (Holds crates path db) (execute crates path change) (Holds crates path db) := by
  apply Fails.atomically
  intro disk hdb
  obtain ⟨raw, hraw, hread⟩ := hdb
  exact ⟨⟨err, by simp only [hraw, hread, h]⟩, raw, hraw, hread⟩

theorem safe_populateRow (hlawful : crates.Lawful) (h : failure service entry = none) :
    Safe (Holds crates path db) (populateRow crates service path entry)
      (fun _ => Holds crates path (replaced db [newRow service entry])) (fun _ => True) := by
  unfold failure at h
  split at h
  · simp at h
  · rename_i vector hvector
    split at h
    · simp at h
    · rename_i hdelete
      split at h
      · simp at h
      · rename_i hinsert
        rw [populateRow, hvector]
        refine Safe.bind (holds_execute hlawful (db.delete entry.1.operationId) ?_) ?_
        · rw [deleteRow, Option.not_isSome_iff_eq_none.mp hdelete]
        · intro _
          apply holds_execute hlawful (replaced db [newRow service entry])
          rw [insertRow, Option.not_isSome_iff_eq_none.mp hinsert, newRow, hvector]
          exact if_neg (not_indexed_delete _)

theorem fails_populateRow (hlawful : crates.Lawful) {stage : Stage}
    (h : failure service entry = some stage) :
    Fails (Holds crates path db) (populateRow crates service path entry)
      (Holds crates path (stage.leaves entry.1.operationId db)) := by
  unfold failure at h
  split at h
  · rename_i err hembed
    obtain rfl := Option.some.inj h
    rw [populateRow, hembed]
    exact Fails.fail fun _ hdb => hdb
  · rename_i vector hvector
    rw [populateRow, hvector]
    split at h
    · rename_i hdelete
      obtain rfl := Option.some.inj h
      obtain ⟨err, herr⟩ := Option.isSome_iff_exists.mp hdelete
      apply Fails.bind
      apply fails_execute
      rw [deleteRow, herr]
    · rename_i hdelete
      split at h
      · rename_i hinsert
        obtain rfl := Option.some.inj h
        obtain ⟨err, herr⟩ := Option.isSome_iff_exists.mp hinsert
        refine Fails.bind_of_safe (holds_execute hlawful (db.delete entry.1.operationId) ?_) ?_
        · rw [deleteRow, Option.not_isSome_iff_eq_none.mp hdelete]
        · intro _
          apply fails_execute
          rw [insertRow, herr]
      · simp at h

/-! ## All rows -/

theorem indexed_append : indexed service db (entries ++ [entry]) =
    replaced (indexed service db entries) [newRow service entry] := by
  simp [indexed, replaced, Table.putAll]

theorem safe_rows (hlawful : crates.Lawful) (h : ∀ e ∈ entries, failure service e = none) :
    Safe (Holds crates path db) (entries.forM (populateRow crates service path))
      (fun _ => Holds crates path (indexed service db entries)) (fun _ => True) := by
  refine Safe.forM (I := fun past => Holds crates path (indexed service db past))
    (fun _ _ _ => trivial) ?_
  intro past entry rest hentries
  have hentry : entry ∈ entries := by simp [hentries]
  rw [indexed_append]
  exact safe_populateRow hlawful (h entry hentry)

theorem fails_rows (hlawful : crates.Lawful) {past rest : List (EndpointRow × Nat)} {stage : Stage}
    (hpast : ∀ e ∈ past, failure service e = none) (h : failure service entry = some stage) :
    Fails (Holds crates path db) ((past ++ entry :: rest).forM (populateRow crates service path))
      (Holds crates path (stage.leaves entry.1.operationId (indexed service db past))) := by
  refine Fails.forM (I := fun past => Holds crates path (indexed service db past)) rest ?_
    (fails_populateRow hlawful h)
  intro before next after hbefore
  have hnext : next ∈ past := by simp [hbefore]
  rw [indexed_append]
  exact safe_populateRow hlawful (hpast next hnext)

theorem holds_query : Safe (Holds crates path db) (query crates path (·.endpoints))
    (fun rows disk => rows = db.endpoints ∧ Holds crates path db disk) (fun _ => True) :=
  (safe_query _).mono_cut fun _ _ => trivial

theorem safe_populateOne (hlawful : crates.Lawful)
    (h : ∀ e ∈ db.endpoints.zipIdx, failure service e = none) :
    Safe (Holds crates path db) (populateOne crates service path)
      (fun count disk => count = db.endpoints.length ∧
        Holds crates path (indexed service db db.endpoints.zipIdx) disk) (fun _ => True) := by
  apply Safe.bind holds_query
  intro rows
  apply Safe.of_and
  intro hrows
  rw [hrows]
  apply Safe.bind (safe_rows hlawful h)
  intro _
  exact Safe.pure (fun _ hdb => ⟨rfl, hdb⟩) fun _ _ => trivial

theorem fails_populateOne (hlawful : crates.Lawful) {past rest : List (EndpointRow × Nat)}
    {stage : Stage} (hrows : db.endpoints.zipIdx = past ++ entry :: rest)
    (hpast : ∀ e ∈ past, failure service e = none) (h : failure service entry = some stage) :
    Fails (Holds crates path db) (populateOne crates service path)
      (Holds crates path (stage.leaves entry.1.operationId (indexed service db past))) := by
  apply Fails.bind_of_safe holds_query
  intro rows disk hdb
  obtain ⟨rfl, hdb⟩ := hdb
  rw [hrows]
  exact (fails_rows hlawful hpast h).bind disk hdb

/-- Either no row fails, or one does and those before it do not. -/
theorem first_failure (service : Service) (entries : List (EndpointRow × Nat)) :
    (∀ e ∈ entries, failure service e = none) ∨
      ∃ past entry rest stage, entries = past ++ entry :: rest ∧
        (∀ e ∈ past, failure service e = none) ∧ failure service entry = some stage := by
  cases hfind : entries.find? fun e => (failure service e).isSome with
  | none =>
      left
      intro e he
      simpa using List.find?_eq_none.mp hfind e he
  | some entry =>
      right
      obtain ⟨hentry, past, rest, hentries, hpast⟩ := List.find?_eq_some_iff_append.mp hfind
      obtain ⟨stage, hstage⟩ := Option.isSome_iff_exists.mp hentry
      refine ⟨past, entry, rest, stage, hentries, ?_, hstage⟩
      intro e he
      simpa using hpast e he

/-! ## Success -/

theorem keys_newRow (service : Service) (endpoints : List EndpointRow) :
    Table.keys (endpoints.zipIdx.map (newRow service)) = endpoints.map (·.operationId) := by
  have hkeys : Table.keys (endpoints.zipIdx.map (newRow service)) =
      (endpoints.zipIdx.map Prod.fst).map (·.operationId) := by
    rw [Table.keys, List.map_map, List.map_map]
    rfl
  rw [hkeys, List.zipIdx_map_fst]

theorem newRow_of_none {embedding : String → List UInt32} (hembeds : Embeds service embedding)
    (h : failure service entry = none) :
    newRow service entry =
      (entry.1.operationId, vectorToLeBytes (embedding entry.1.text)) := by
  unfold failure at h
  split at h
  · simp at h
  · rename_i vector hvector
    rw [newRow, hvector, hembeds _ _ _ hvector]

theorem ok_populateOne (hlawful : crates.Lawful) (hdb : Holds crates path db disk) {count : Nat}
    (hok : (populateOne crates service path disk).result = .ok count) :
    ∀ e ∈ db.endpoints.zipIdx, failure service e = none := by
  rcases first_failure service db.endpoints.zipIdx with hnone | hsome
  · exact hnone
  · obtain ⟨past, entry, rest, stage, hrows, hpast, hstage⟩ := hsome
    obtain ⟨⟨err, herr⟩, -⟩ := fails_populateOne hlawful hrows hpast hstage disk hdb
    rw [hok] at herr
    simp at herr

theorem complete_indexed {embedding : String → List UInt32} (hembeds : Embeds service embedding)
    (hunique : (db.endpoints.map (·.operationId)).Nodup)
    (h : ∀ e ∈ db.endpoints.zipIdx, failure service e = none) :
    Complete embedding db (indexed service db db.endpoints.zipIdx) where
  endpoints := rfl
  rows row hrow := by
    obtain ⟨i, hi⟩ := List.getElem?_of_mem hrow
    have hentry : (row, i) ∈ db.endpoints.zipIdx := List.mk_mem_zipIdx_iff_getElem?.mpr hi
    rw [← keys_newRow service] at hunique
    have hfilter : (indexed service db db.endpoints.zipIdx).semanticEndpoints.filter
        (·.1 = row.operationId) = [newRow service (row, i)] :=
      Table.filter_putAll_of_mem hunique (List.mem_map_of_mem hentry)
    rw [hfilter, newRow_of_none hembeds (h _ hentry)]
  others operationId hother := by
    rw [← keys_newRow service] at hother
    exact Table.filter_putAll_of_notMem hother

/-- Indexing what is indexed. -/
theorem indexed_indexed {embedding : String → List UInt32} {later : Service}
    (hembeds : Embeds service embedding) (hembeds' : Embeds later embedding)
    (hunique : (db.endpoints.map (·.operationId)).Nodup)
    (h : ∀ e ∈ db.endpoints.zipIdx, failure service e = none)
    (h' : ∀ e ∈ db.endpoints.zipIdx, failure later e = none) :
    indexed later (indexed service db db.endpoints.zipIdx) db.endpoints.zipIdx =
      indexed service db db.endpoints.zipIdx := by
  have hrows : db.endpoints.zipIdx.map (newRow later) =
      db.endpoints.zipIdx.map (newRow service) := by
    apply List.map_congr_left
    intro e he
    rw [newRow_of_none hembeds (h e he), newRow_of_none hembeds' (h' e he)]
  rw [← keys_newRow service] at hunique
  rw [indexed, hrows, indexed, replaced, replaced]
  dsimp only
  rw [Table.putAll_putAll hunique]

/-- **Parity.** When `populate_one` succeeds every endpoint has its embedding, nothing is missing,
and doing it again changes nothing. -/
theorem parity (crates : Crates) (service : Service) (embedding : String → List UInt32)
    (path : String) (db : Database) (disk : Disk) (count : Nat) (hlawful : crates.Lawful)
    (hdb : Holds crates path db disk) (hunique : (db.endpoints.map (·.operationId)).Nodup)
    (hembeds : Embeds service embedding)
    (hok : (populateOne crates service path disk).result = .ok count) :
    Parity crates service embedding path db count (populateOne crates service path disk).final := by
  have hnone := ok_populateOne hlawful hdb hok
  obtain ⟨-, count', hresult, hcount, hfinal⟩ := safe_populateOne hlawful hnone disk hdb
  obtain rfl : count' = count := Except.ok.inj (hresult.symm.trans hok)
  have hcomplete := complete_indexed hembeds hunique hnone
  constructor
  · exact hcount
  · exact ⟨_, hfinal, hcomplete⟩
  · obtain ⟨-, missing, hquery, hmissing, -⟩ := safe_query (·.missing) _ hfinal
    have hnil : (indexed service db db.endpoints.zipIdx).missing = [] := by
      apply missing_eq_nil
      intro row hrow
      apply Table.mem_keys_putAll.mpr
      rw [keys_newRow]
      exact .inr (List.mem_map_of_mem hrow)
    rw [missingOperationIds, hquery, hmissing, hnil]
  · have hsame : ∀ e ∈ (indexed service db db.endpoints.zipIdx).endpoints.zipIdx,
        failure service e = none := hnone
    obtain ⟨-, again, hresult', hagain, -⟩ := safe_populateOne hlawful hsame _ hfinal
    rw [hresult', hagain, hcount]
    rfl
  · intro later hembeds' count'' hok'
    have hnone' := ok_populateOne hlawful hfinal hok'
    obtain ⟨-, _, -, -, hfinal'⟩ := safe_populateOne hlawful hnone' _ hfinal
    refine ⟨_, hfinal, ?_⟩
    rwa [show (indexed service db db.endpoints.zipIdx).endpoints = db.endpoints from rfl,
      indexed_indexed hembeds hembeds' hunique hnone hnone'] at hfinal'

/-! ## Failure -/

theorem Holds.unique (h : Holds crates path db disk) (h' : Holds crates path db' disk) :
    db = db' := by
  obtain ⟨raw, hraw, hread⟩ := h
  obtain ⟨raw', hraw', hread'⟩ := h'
  obtain rfl : raw = raw' := Option.some.inj (hraw.symm.trans hraw')
  exact Except.ok.inj (hread.symm.trans hread')

/-- Rows are replaced and not removed. -/
theorem indexed_of_indexed {operationId : String} (h : db.indexed operationId) :
    (indexed service db entries).indexed operationId :=
  Table.mem_keys_putAll.mpr (.inl h)

theorem losesNothing_of_not (hlawful : crates.Lawful) (hdb : Holds crates path db disk)
    (h : ¬ InsertFails service db) : LosesNothing crates service path db disk := by
  intro err herr operationId hindexed
  rcases first_failure service db.endpoints.zipIdx with hnone | hsome
  · obtain ⟨-, count, hresult, -⟩ := safe_populateOne hlawful hnone disk hdb
    rw [hresult] at herr
    simp at herr
  · obtain ⟨past, entry, rest, stage, hrows, hpast, hstage⟩ := hsome
    obtain ⟨-, hfinal⟩ := fails_populateOne hlawful hrows hpast hstage disk hdb
    refine ⟨_, hfinal, ?_⟩
    by_cases hinsert : stage = .insert
    · -- then it is another id whose row is gone
      have hne : operationId ≠ entry.1.operationId := by
        intro heq
        rw [hinsert] at hstage
        exact h ⟨past, entry, rest, hrows, hpast, hstage, heq ▸ hindexed⟩
      rw [Stage.leaves, if_pos hinsert]
      exact Table.mem_keys_erase.mpr ⟨indexed_of_indexed hindexed, hne⟩
    · rw [Stage.leaves, if_neg hinsert]
      exact indexed_of_indexed hindexed

/-- The old row is deleted by then. -/
theorem InsertFails.not_losesNothing (hlawful : crates.Lawful) (hdb : Holds crates path db disk)
    (h : InsertFails service db) : ¬ LosesNothing crates service path db disk := by
  intro hkept
  obtain ⟨past, entry, rest, hrows, hpast, hstage, hindexed⟩ := h
  obtain ⟨⟨err, herr⟩, hfinal⟩ := fails_populateOne hlawful hrows hpast hstage disk hdb
  obtain ⟨db', hdb', hrow⟩ := hkept err herr entry.1.operationId hindexed
  obtain rfl := Holds.unique hdb' hfinal
  exact not_indexed_delete _ hrow

/-- **Loss.** A call that fails loses no embedding, if and only if what fails first is not the
insert of an endpoint that has a row. -/
theorem losesNothing_iff (crates : Crates) (service : Service) (path : String) (db : Database)
    (disk : Disk) (hlawful : crates.Lawful) (hdb : Holds crates path db disk) :
    LosesNothing crates service path db disk ↔ ¬ InsertFails service db :=
  ⟨fun h hfails => hfails.not_losesNothing hlawful hdb h, losesNothing_of_not hlawful hdb⟩

end

/-! ## A store with an old row and one of a removed endpoint -/

namespace Stale

open TopdeskMcp.Theorems.Populate.Unary

def stored : Database where
  endpoints := [⟨"getIncident", "/incidents/id", "GET", some "Get an incident", none⟩]
  semanticEndpoints := [("getIncident", []), ("getAsset", [])]

def store : Disk := fun file => if file = "mcp_store.db" then some (image stored) else none

theorem holds_stored : Holds crates "mcp_store.db" stored store :=
  ⟨image stored, rfl, crates_readDb stored⟩

theorem ok_populateOne_store :
    (populateOne crates service "mcp_store.db" store).result = .ok 1 := by
  have hnone : ∀ e ∈ stored.endpoints.zipIdx, failure service e = none := fun _ _ => rfl
  obtain ⟨-, count, hresult, rfl, -⟩ := safe_populateOne crates_lawful hnone store holds_stored
  exact hresult

theorem parity_stored : Parity crates service (fun _ => [0x3f800000]) "mcp_store.db" stored 1
    (populateOne crates service "mcp_store.db" store).final :=
  parity crates service _ "mcp_store.db" stored store 1 crates_lawful holds_stored
    (List.nodup_singleton _) (fun _ _ _ h => (Except.ok.inj h).symm) ok_populateOne_store

/-- The disk is full when the row is inserted. -/
def full : Service := { service with insert := fun _ => some "database or disk is full" }

/-- The row is gone. -/
theorem losesNothing_fails : ¬ LosesNothing crates full "mcp_store.db" stored store := by
  have hfails : InsertFails full stored :=
    ⟨[], _, [], rfl, by simp, rfl, List.mem_cons_self⟩
  exact hfails.not_losesNothing crates_lawful holds_stored

/-- Nothing is lost when nothing fails. -/
theorem losesNothing_stored : LosesNothing crates service "mcp_store.db" stored store := by
  refine (losesNothing_iff crates service _ stored store crates_lawful holds_stored).mpr ?_
  rintro ⟨past, entry, rest, -, -, hstage, -⟩
  have hnone : failure service entry = none := rfl
  rw [hnone] at hstage
  simp at hstage

end Stale

end TopdeskMcp.Theorems.Indexing
