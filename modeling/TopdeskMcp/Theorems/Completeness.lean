import TopdeskMcp.Lib.Table
import TopdeskMcp.Tools.SearchTool

/-!
# Two diagnostics

The search compares two counts, the indexer joins the tables. An endpoint without a row and a
row without an endpoint make up for each other in the counts, so the search is silent when
there are as many of these as of those.
-/

namespace TopdeskMcp.Theorems.Completeness

open TopdeskMcp TopdeskMcp.Search

open TopdeskMcp.Populate (Database EndpointRow)

/-- No search finds the endpoint. -/
def Unfindable (index : VecIndex) (db : Database) (row : EndpointRow) : Prop :=
  ∀ embed query limit results, (searchOperations index embed db query limit).2 = .ok results →
    row.operationId ∉ results.map (·.operationId)

/-- The warning is for what the indexer reports, which is what has no embedding. -/
structure Agrees (index : VecIndex) (db : Database) : Prop where
  warns : warnIfEmbeddingsIncomplete (.ok (counts db)) = true ↔ db.missing ≠ []
  missing : db.missing ≠ [] ↔ ∃ row ∈ db.endpoints, ¬ db.indexed row.operationId
  unfindable : ∀ row ∈ db.endpoints, ¬ db.indexed row.operationId → Unfindable index db row

/-- The rows that are left of removed endpoints. -/
def orphans (db : Database) : List (String × Bytes) :=
  db.semanticEndpoints.filter fun r => r.1 ∉ db.endpoints.map (·.operationId)

/-- The endpoints without a row. -/
def bare (db : Database) : List EndpointRow :=
  db.endpoints.filter fun row => ¬ db.indexed row.operationId

section

variable {index : VecIndex} {db : Database}

theorem missing_ne_nil_iff : db.missing ≠ [] ↔ ∃ row ∈ db.endpoints, ¬ db.indexed row.operationId := by
  rw [Database.missing, ne_eq, List.filter_eq_nil_iff]
  simp

/-- A result is the endpoint of a row. -/
theorem unfindable_of_not_indexed (hindex : index.Lawful) {row : EndpointRow}
    (h : ¬ db.indexed row.operationId) : Unfindable index db row := by
  intro embed query limit results hresults hmem
  unfold searchOperations at hresults
  cases hembed : embed query with
  | error err => simp [hembed, Except.map] at hresults
  | ok queryEmbedding =>
      rw [hembed] at hresults
      obtain rfl := Except.ok.inj hresults
      obtain ⟨result, hresult, hid⟩ := List.mem_map.mp hmem
      obtain ⟨operationId, hnearest, hjoined⟩ := List.mem_flatMap.mp hresult
      obtain ⟨endpoint, hendpoint, rfl⟩ := List.mem_map.mp hjoined
      obtain ⟨-, hsame⟩ := List.mem_filter.mp hendpoint
      have hrow : operationId = row.operationId := (of_decide_eq_true hsame).symm.trans hid
      exact h (hrow ▸ hindex _ _ _ _ hnearest)

theorem length_missing : db.missing.length = (bare db).length := by
  rw [Database.missing, bare, List.filter_map, List.length_map]
  rfl

theorem length_orphans : (orphans db).length =
    ((db.semanticEndpoints.map (·.1)).filter (· ∉ db.endpoints.map (·.operationId))).length := by
  rw [orphans, List.filter_map, List.length_map]
  rfl

/-- The counts differ by what the one table has and the other has not. -/
theorem warns_iff (hendpoints : (db.endpoints.map (·.operationId)).Nodup)
    (hsemantic : (db.semanticEndpoints.map (·.1)).Nodup) :
    warnIfEmbeddingsIncomplete (.ok (counts db)) = true ↔ (orphans db).length < (bare db).length := by
  have hcounts : warnIfEmbeddingsIncomplete (.ok (counts db)) = true ↔
      (db.semanticEndpoints.map (·.1)).length < (db.endpoints.map (·.operationId)).length := by
    rw [List.length_map, List.length_map]
    exact decide_eq_true_iff
  rw [hcounts, Table.length_lt_length_iff hendpoints hsemantic, ← length_missing, length_orphans]
  rfl

/-- **Completeness.** The diagnostics agree if and only if every endpoint has a row, or there
are more endpoints without one than rows without an endpoint. -/
theorem agrees_iff (index : VecIndex) (db : Database) (hindex : index.Lawful)
    (hendpoints : (db.endpoints.map (·.operationId)).Nodup)
    (hsemantic : (db.semanticEndpoints.map (·.1)).Nodup) :
    Agrees index db ↔ (∀ row ∈ db.endpoints, db.indexed row.operationId) ∨
      (orphans db).length < (bare db).length := by
  have hmissing : db.missing ≠ [] ↔ 0 < (bare db).length := by
    rw [← length_missing, List.length_pos_iff]
  have hall : (∀ row ∈ db.endpoints, db.indexed row.operationId) ↔ ¬ db.missing ≠ [] := by
    rw [missing_ne_nil_iff]
    push Not
    rfl
  have hwarns := warns_iff hendpoints hsemantic
  rw [hall, hmissing]
  constructor
  · intro h
    have hagree := h.warns
    rw [hwarns, hmissing] at hagree
    omega
  · intro h
    refine ⟨?_, missing_ne_nil_iff, fun row _ => unfindable_of_not_indexed hindex⟩
    rw [hwarns, hmissing]
    omega

end

/-! ## An endpoint that was renamed -/

namespace Renamed

/-- The first rows are as near as any. -/
def index : VecIndex := ⟨fun rows _ k => (rows.map (·.1)).take k⟩

theorem index_lawful : index.Lawful := fun _ _ _ _ h => List.mem_of_mem_take h

def incident : EndpointRow := ⟨"getIncidentById", "/incidents/id", "GET", none, none⟩

def asset : EndpointRow := ⟨"getAsset", "/assets/id", "GET", none, none⟩

/-- The row has the old name. -/
def renamed : Database := ⟨[incident], [("getIncident", [])]⟩

/-- One row is too many and one is missing. -/
theorem agrees_fails : ¬ Agrees index renamed := by
  intro h
  have hmissing : renamed.missing ≠ [] := by decide
  have hwarned := h.warns.mpr hmissing
  have hsilent : warnIfEmbeddingsIncomplete (.ok (counts renamed)) = false := rfl
  rw [hsilent] at hwarned
  simp at hwarned

/-- ... and another endpoint is yet to be indexed. -/
def grown : Database := ⟨[incident, asset], [("getIncident", [])]⟩

/-- Then there is a warning. -/
theorem agrees_grown : Agrees index grown :=
  (agrees_iff index grown index_lawful (by decide) (by decide)).mpr (.inr (by decide))

end Renamed

end TopdeskMcp.Theorems.Completeness
