import TopdeskMcp.Bin.PopulateEmbeddings

/-!
# Searching the operations (`tools/search_tool.rs`)

The diagnostic that goes before a search, and the search: the rows of `semantic_endpoints`
nearest to the embedding of the query, joined with their endpoints. Which rows are nearest is
for `sqlite-vec` to say (`VecIndex`). The similarity of a result is left out.
-/

namespace TopdeskMcp.Search

open Populate (Database vectorToLeBytes)

/-- The ids of the rows nearest to a vector, by distance. -/
structure VecIndex where
  nearest : List (String × Bytes) → Bytes → Nat → List String

/-- They are ids of the table. -/
def VecIndex.Lawful (index : VecIndex) : Prop :=
  ∀ rows blob k, ∀ operationId ∈ index.nearest rows blob k, operationId ∈ rows.map (·.1)

structure SearchResult where
  operationId : String
  summary : Option String
  deriving DecidableEq

/-- The row of the query for both counts. -/
def counts (db : Database) : Nat × Nat := (db.endpoints.length, db.semanticEndpoints.length)

/-- A query that fails is no warning. -/
def warnIfEmbeddingsIncomplete (counts : Except String (Nat × Nat)) : Bool :=
  match counts with
  | .ok (endpointsCount, semanticCount) => semanticCount < endpointsCount
  | .error _ => false

def searchEndpoints (index : VecIndex) (db : Database) (queryEmbedding : List UInt32)
    (limit : Nat) : List SearchResult :=
  (index.nearest db.semanticEndpoints (vectorToLeBytes queryEmbedding) limit).flatMap
    fun operationId => (db.endpoints.filter (·.operationId = operationId)).map fun row =>
      ⟨row.operationId, row.summary⟩

/-- The warning, and what the caller gets. -/
def searchOperations (index : VecIndex) (embed : String → Except String (List UInt32))
    (db : Database) (query : String) (limit : Nat) : Bool × Except String (List SearchResult) :=
  (warnIfEmbeddingsIncomplete (.ok (counts db)),
    (embed query).map fun queryEmbedding => searchEndpoints index db queryEmbedding limit)

end TopdeskMcp.Search
