import TopdeskMcp.Core.McpServer
import TopdeskMcp.Tools.SearchTool

/-!
# The catalog of a store (`data/store.rs`, `tools/get_tool.rs`)

The rows of `endpoints` with all of their columns, the records they are read as, and what the
tools of the server (`core/mcp_server.rs`) answer from them.

Columns have the types they are declared with. `serde_json::from_str` is a parameter, and so is
the similarity of a search result. An answer is the value whose text the client gets.
-/

namespace TopdeskMcp.Endpoints

open Search (SearchResult VecIndex)

/-- A row of `endpoints`. -/
structure Row extends Populate.EndpointRow where
  inputSchema : String
  outputSchema : String
  authSchemeRef : Option String

/-- The tables of a store. -/
structure Tables where
  endpoints : List Row
  semanticEndpoints : List (String × Bytes)

/-- What the indexer and the search use of them. -/
def Tables.database (tables : Tables) : Populate.Database where
  endpoints := tables.endpoints.map Row.toEndpointRow
  semanticEndpoints := tables.semanticEndpoints

/-- The record of a row; a call reads the columns of `EndpointRecord`. -/
structure StoredEndpoint extends EndpointRecord where
  operationId : String
  summary : Option String
  description : Option String
  outputSchema : Json.Value
  authSchemeRef : Option String

/-- A schema that is no JSON is read as null. -/
def rowToEndpoint (fromStr : String → Option Json.Value) (row : Row) : StoredEndpoint where
  operationId := row.operationId
  path := row.path
  method := row.method
  summary := row.summary
  description := row.description
  inputSchema := (fromStr row.inputSchema).getD .null
  outputSchema := (fromStr row.outputSchema).getD .null
  authSchemeRef := row.authSchemeRef

def getEndpoint (fromStr : String → Option Json.Value) (tables : Tables) (operationId : String) :
    Option StoredEndpoint :=
  (tables.endpoints.find? (·.operationId = operationId)).map (rowToEndpoint fromStr)

/-! ## Values -/

def StoredEndpoint.toValue (endpoint : StoredEndpoint) : Json.Value :=
  .object
    [("operation_id", .string endpoint.operationId), ("path", .string endpoint.path),
     ("method", .string endpoint.method), ("summary", .ofOption endpoint.summary),
     ("description", .ofOption endpoint.description), ("input_schema", endpoint.inputSchema),
     ("output_schema", endpoint.outputSchema), ("auth_scheme_ref", .ofOption endpoint.authSchemeRef)]

def resultToValue (similarity : SearchResult → Json.Value) (result : SearchResult) : Json.Value :=
  .object
    [("operation_id", .string result.operationId), ("summary", .ofOption result.summary),
     ("similarity", similarity result)]

def getOperation (fromStr : String → Option Json.Value) (tables : Tables) (operationId : String) :
    Except McpifyError Json.Value :=
  match getEndpoint fromStr tables operationId with
  | some endpoint => .ok endpoint.toValue
  | none => .error (.notFound s!"unknown operationId '{operationId}'")

end TopdeskMcp.Endpoints

/-! ## Tools -/

namespace TopdeskMcp.Tools

open Endpoints

open Search (SearchResult VecIndex)

/-- `CallToolResult`. -/
inductive ToolResult where
  | success (value : Json.Value)
  | error (text : String)

def runTool : Except String Json.Value → ToolResult
  | .ok value => .success value
  | .error text => .error text

def search (index : VecIndex) (embed : String → Except String (List UInt32))
    (similarity : SearchResult → Json.Value) (tables : Tables) (query : String) (limit : Nat) :
    ToolResult :=
  runTool ((Search.searchOperations index embed tables.database query limit).2.map fun results =>
    .array (results.map (resultToValue similarity)))

def get (fromStr : String → Option Json.Value) (tables : Tables) (operationId : String) :
    ToolResult :=
  runTool ((getOperation fromStr tables operationId).mapError McpifyError.text)

/-- Where `call` looks its endpoint up. -/
def catalog (fromStr : String → Option Json.Value) (tables : Tables) : Catalog :=
  fun operationId =>
    .ok ((getEndpoint fromStr tables operationId).map StoredEndpoint.toEndpointRecord)

end TopdeskMcp.Tools
