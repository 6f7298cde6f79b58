import TopdeskMcp.Data.Catalog
import TopdeskMcp.Theorems.Connections
import TopdeskMcp.Theorems.Isolation

/-!
# One catalog

A client searches for an operation, gets what there is to know of it, and calls it. The three
tools look into the connection of their version, each at a time of its own, and in between the
files may change.

* `one_catalog`: whatever happens in between, what one tool finds the others find, and as the same;
* `shown_is_sent`: a request that is ever sent is for an operation that `get` shows, with the
  method, the address and the parameters that are shown there.
-/

namespace TopdeskMcp.Theorems.OneCatalog

open TopdeskMcp Endpoints ApiClient Server

open TopdeskMcp.Store (Connection)

open TopdeskMcp.Search (SearchResult VecIndex)

/-! ## What a client reads -/

/-- The operation and the summary of a search result. -/
def hitOf (value : Json.Value) : Option (String × Json.Value) := do
  let operationId ← (value.get "operation_id").bind Json.Value.asStr
  let summary ← value.get "summary"
  return (operationId, summary)

/-- The results of a search. -/
def hitsOf (value : Json.Value) : List (String × Json.Value) :=
  (value.asArray.getD []).filterMap hitOf

/-- What `get` shows, as far as it matters for a call. -/
def endpointOf (value : Json.Value) : Option EndpointRecord := do
  let path ← (value.get "path").bind Json.Value.asStr
  let method ← (value.get "method").bind Json.Value.asStr
  let inputSchema ← value.get "input_schema"
  return { path, method, inputSchema }

theorem hitOf_resultToValue (similarity : SearchResult → Json.Value) (result : SearchResult) :
    hitOf (resultToValue similarity result) =
      some (result.operationId, .ofOption result.summary) := rfl

theorem endpointOf_toValue (endpoint : StoredEndpoint) :
    endpointOf endpoint.toValue = some endpoint.toEndpointRecord := rfl

section

variable {fromStr : String → Option Json.Value} {index : VecIndex}
  {embed : String → Except String (List UInt32)} {similarity : SearchResult → Json.Value}
  {tables : Tables} {operationId : String}

theorem hitsOf_results (results : List SearchResult) :
    hitsOf (.array (results.map (resultToValue similarity))) =
      results.map fun result => (result.operationId, Json.Value.ofOption result.summary) := by
  show List.filterMap hitOf (results.map (resultToValue similarity)) = _
  rw [List.filterMap_map, ← List.filterMap_eq_map]
  exact List.filterMap_congr fun result _ => hitOf_resultToValue similarity result

/-! ## One store -/

/-- A result of a search is a row of the store. -/
theorem mem_searchEndpoints {queryEmbedding : List UInt32} {limit : Nat} {result : SearchResult}
    (h : result ∈ Search.searchEndpoints index tables.database queryEmbedding limit) :
    ∃ row ∈ tables.endpoints, result = ⟨row.operationId, row.summary⟩ := by
  obtain ⟨nearest, -, hjoined⟩ := List.mem_flatMap.mp h
  obtain ⟨endpoint, hendpoint, rfl⟩ := List.mem_map.mp hjoined
  obtain ⟨row, hrow, rfl⟩ := List.mem_map.mp (List.mem_filter.mp hendpoint).1
  exact ⟨row, hrow, rfl⟩

/-- What a search shows is what its rows hold. -/
theorem hit_of_search {query : String} {limit : Nat} {value : Json.Value}
    (h : Tools.search index embed similarity tables query limit = .success value)
    {hit : String × Json.Value} (hhit : hit ∈ hitsOf value) :
    ∃ row ∈ tables.endpoints, hit = (row.operationId, Json.Value.ofOption row.summary) := by
  unfold Tools.search Search.searchOperations at h
  cases hembed : embed query with
  | error err =>
      rw [hembed] at h
      simp [Except.map, Tools.runTool] at h
  | ok queryEmbedding =>
      rw [hembed] at h
      obtain rfl := Tools.ToolResult.success.inj h
      rw [hitsOf_results] at hhit
      obtain ⟨result, hresult, rfl⟩ := List.mem_map.mp hhit
      obtain ⟨row, hrow, rfl⟩ := mem_searchEndpoints hresult
      exact ⟨row, hrow, rfl⟩

/-- The row of an operation, where there is one for each. -/
theorem getEndpoint_of_mem (hunique : (tables.endpoints.map (·.operationId)).Nodup) {row : Row}
    (hrow : row ∈ tables.endpoints) :
    getEndpoint fromStr tables row.operationId = some (rowToEndpoint fromStr row) := by
  cases hfind : tables.endpoints.find? (·.operationId = row.operationId) with
  | none => simpa using List.find?_eq_none.mp hfind row hrow
  | some found =>
      have hsame : found.operationId = row.operationId := by simpa using List.find?_some hfind
      obtain rfl : found = row :=
        List.inj_on_of_nodup_map hunique (List.mem_of_find?_eq_some hfind) hrow hsame
      rw [getEndpoint, hfind]
      rfl

/-- The three tools on an operation. -/
theorem get_cases (fromStr : String → Option Json.Value) (tables : Tables) (operationId : String) :
    (∃ endpoint, getEndpoint fromStr tables operationId = some endpoint ∧
      Tools.get fromStr tables operationId = .success endpoint.toValue ∧
      findEndpoint (Tools.catalog fromStr tables) operationId = .ok endpoint.toEndpointRecord) ∨
    (getEndpoint fromStr tables operationId = none ∧
      Tools.get fromStr tables operationId =
        .error s!"unknown operationId '{operationId}'" ∧
      findEndpoint (Tools.catalog fromStr tables) operationId =
        .error (.mcpify (.notFound s!"unknown operationId '{operationId}'"))) := by
  unfold Tools.get getOperation findEndpoint Tools.catalog
  cases getEndpoint fromStr tables operationId with
  | some endpoint => exact .inl ⟨endpoint, rfl, rfl, rfl⟩
  | none => exact .inr ⟨rfl, rfl, rfl⟩

/-! ## Two looks into the catalog -/

/-- What one look finds the other one finds. -/
structure Consistent (fromStr : String → Option Json.Value) (found shown : Tables) : Prop where
  hits : ∀ index embed similarity query limit value,
    Tools.search index embed similarity found query limit = .success value →
      ∀ hit ∈ hitsOf value, ∃ answer, Tools.get fromStr shown hit.1 = .success answer ∧
        hitOf answer = some hit
  calls : ∀ operationId answer, Tools.get fromStr found operationId = .success answer →
    ∃ endpoint, endpointOf answer = some endpoint ∧
      findEndpoint (Tools.catalog fromStr shown) operationId = .ok endpoint
  unknown : ∀ operationId text, Tools.get fromStr found operationId = .error text →
    findEndpoint (Tools.catalog fromStr shown) operationId = .error (.mcpify (.notFound text))

theorem consistent_self (hunique : (tables.endpoints.map (·.operationId)).Nodup) :
    Consistent fromStr tables tables where
  hits index embed similarity query limit value hsearch hit hhit := by
    obtain ⟨row, hrow, rfl⟩ := hit_of_search hsearch hhit
    have hfound : getEndpoint fromStr tables row.operationId = some (rowToEndpoint fromStr row) :=
      getEndpoint_of_mem hunique hrow
    rcases get_cases fromStr tables row.operationId with ⟨endpoint, hendpoint, hget, -⟩ | ⟨hnone, -⟩
    · obtain rfl := Option.some.inj (hfound.symm.trans hendpoint)
      exact ⟨_, hget, rfl⟩
    · rw [hfound] at hnone
      simp at hnone
  calls operationId answer hanswer := by
    rcases get_cases fromStr tables operationId with ⟨endpoint, -, hget, hfind⟩ | ⟨-, hget, -⟩
    · rw [hget] at hanswer
      obtain rfl := Tools.ToolResult.success.inj hanswer
      exact ⟨_, endpointOf_toValue endpoint, hfind⟩
    · rw [hget] at hanswer
      simp at hanswer
  unknown operationId text htext := by
    rcases get_cases fromStr tables operationId with ⟨endpoint, -, hget, -⟩ | ⟨-, hget, hfind⟩
    · rw [hget] at htext
      simp at htext
    · rw [hget] at htext
      obtain rfl := Tools.ToolResult.error.inj htext
      exact hfind

end

section

variable {decodeAll : Bytes → Option Bytes} {w₀ w w' : Store.World} {es fs : List Store.Event}
  {pid tid tid' : Nat} {v : String} {conn conn' : Connection}

/-- A process has one connection for a version. -/
theorem conn_eq (h₀ : ∀ pid, (w₀.procs pid).Fresh) (hrun : (store decodeAll).run w₀ es = some w)
    (hlater : (store decodeAll).run w fs = some w')
    (hserved : (w.procs pid).threads tid = .served v conn)
    (hserved' : (w'.procs pid).threads tid' = .served v conn') : conn = conn' :=
  (((Connections.store_onePerKey h₀ hrun hlater pid).same tid tid' v v conn conn'
    (congrArg Connections.threadPhase hserved) (congrArg Connections.threadPhase hserved')).1).mp rfl

/-- **One catalog.** Two threads of a process have a connection for the same version, at any two
times, and in between all processes do what they will, with the temp directory too. Each operation
that a search finds in one of the connections is shown by `get` in the other one, with the same
summary, and `call` has the endpoint that is shown; an operation that is unknown to one of them is
unknown to the other one, and the error is the same. -/
theorem one_catalog (fromStr : String → Option Json.Value) (tables : Bytes → Tables)
    (h₀ : ∀ pid, (w₀.procs pid).Fresh) (hrun : (store decodeAll).run w₀ es = some w)
    (hlater : (store decodeAll).run w fs = some w')
    (hserved : (w.procs pid).threads tid = .served v conn)
    (hserved' : (w'.procs pid).threads tid' = .served v conn')
    (hunique : ((tables conn.database).endpoints.map (·.operationId)).Nodup) :
    Consistent fromStr (tables conn.database) (tables conn'.database) ∧
      Consistent fromStr (tables conn'.database) (tables conn.database) := by
  obtain rfl := conn_eq h₀ hrun hlater hserved hserved'
  exact ⟨consistent_self hunique, consistent_self hunique⟩

end

/-! ## What is sent -/

section

variable {S : Schemas} {U : UrlCrate} {config : Config} {catalog : Catalog} {s s' : Server}

/-- The request is made from this endpoint and these arguments. -/
structure Makes (U : UrlCrate) (config : Config) (endpoint : EndpointRecord) (args : Json.Value)
    (sent : Request) : Prop where
  method : sent.method = endpoint.method
  url : callUrl U config endpoint (argsMap args) = some sent.url
  body : sent.body = (argsMap args).lookup "body"
  headers : ∃ env auth requestOverride, (AuthManager.applyAuthHeaders env auth
    (callHeaders endpoint (argsMap args)) config.transport requestOverride).1 = .ok sent.headers

/-- What a call sent is made from the endpoint it found; without one it has ended at once. -/
structure FromCatalog (U : UrlCrate) (config : Config) (catalog : Catalog) (request : CallRequest)
    (executed : Executed) : Prop where
  sent : ∀ sent, executed.dispatched = some sent → ∃ endpoint,
    findEndpoint catalog request.operationId = .ok endpoint ∧
      Makes U config endpoint request.arguments sent
  unknown : ∀ err, findEndpoint catalog request.operationId = .error err →
    executed = stopped err false executed.auth

structure Cataloged (U : UrlCrate) (config : Config) (catalog : Catalog) (s : Server) : Prop where
  pending : ∀ n call, s.calls n = .pending call →
    findEndpoint catalog call.request.operationId = .ok call.endpoint
  done : ∀ n request executed, s.calls n = .done request executed →
    FromCatalog U config catalog request executed

/-- A step that changes the state of one call. -/
theorem Cataloged.update (h : Cataloged U config catalog s) {n : Nat} {state : CallState}
    (hcalls : s'.calls = Function.update s.calls n state)
    (hpending : ∀ call, state = .pending call →
      findEndpoint catalog call.request.operationId = .ok call.endpoint)
    (hdone : ∀ request executed, state = .done request executed →
      FromCatalog U config catalog request executed) : Cataloged U config catalog s' := by
  constructor
  · intro m call hm
    rw [hcalls] at hm
    by_cases hmn : m = n
    · subst hmn
      exact hpending call (by simpa using hm)
    · exact h.pending m call (by simpa [hmn] using hm)
  · intro m request executed hm
    rw [hcalls] at hm
    by_cases hmn : m = n
    · subst hmn
      exact hdone request executed (by simpa using hm)
    · exact h.done m request executed (by simpa [hmn] using hm)

theorem makes_of_dispatched {i : Invocation} {auth : AuthState} {sent : Request}
    (h : (callOperation S U config i auth).executed.dispatched = some sent) :
    Makes U config i.endpoint i.args sent := by
  cases hvalid : validateInput S config.apiVersion i.operationId i.args with
  | error err =>
      rw [callOperation_of_invalid hvalid] at h
      simp [stopped] at h
  | ok valid =>
      rw [callOperation_of_valid hvalid] at h
      obtain ⟨url, headers, hurl, hheaders, rfl⟩ := prepare_eq_ok (execute_dispatched h)
      exact ⟨rfl, hurl, rfl, _, _, _, hheaders⟩

theorem cataloged_step :
    (server S U config catalog).Inductive (fun _ _ => True) (Cataloged U config catalog) := by
  intro s e s' h _ hstep
  rcases step_cases hstep with ⟨n, request, err, -, herr, rfl⟩ |
    ⟨n, request, endpoint, -, hendpoint, rfl⟩ | ⟨n, -, -, rfl⟩ |
    ⟨n, env, call, -, hcall, -, rfl⟩ | ⟨n, -, rfl⟩
  · refine h.update rfl (fun _ hp => by simp at hp) fun request' executed hd => ?_
    obtain ⟨rfl, rfl⟩ := CallState.done.inj hd
    refine ⟨fun sent hsent => by simp [stopped] at hsent, fun err' herr' => ?_⟩
    obtain rfl := Except.error.inj (herr.symm.trans herr')
    rfl
  · refine h.update rfl (fun call hp => ?_) fun _ _ hd => by simp at hd
    rw [← CallState.pending.inj hp]
    exact hendpoint
  · exact ⟨h.pending, h.done⟩
  · -- a call that is served has its endpoint from its arrival
    have hendpoint := h.pending n call hcall
    refine h.update rfl (fun _ hp => by simp at hp) fun request executed hd => ?_
    obtain ⟨rfl, rfl⟩ := CallState.done.inj hd
    refine ⟨fun sent hsent => ⟨call.endpoint, hendpoint, makes_of_dispatched hsent⟩,
      fun err herr => ?_⟩
    rw [hendpoint] at herr
    simp at herr
  · have hrelease : Cataloged U config catalog (s.release n) :=
      ⟨by simpa using h.pending, by simpa using h.done⟩
    exact hrelease.update rfl (fun _ hp => by simp at hp) fun _ _ hd => by simp at hd

end

section

variable {S : Schemas} {U : UrlCrate} {config : Config} {s : Server}
  {decodeAll : Bytes → Option Bytes} {w₀ w w' : Store.World} {es fs : List Store.Event}
  {pid tid tid' : Nat} {conn conn' : Connection}

/-- **What is shown is sent.** A server whose calls look into the connection of its version, and
any run of it. A request that a call sends is made from its arguments and the endpoint that `get`
shows for its operation, at whatever time and in whatever thread of the process; a call of an
operation that `get` does not know ends with the same error, sends nothing and leaves the
credentials alone. -/
theorem shown_is_sent (fromStr : String → Option Json.Value) (tables : Bytes → Tables)
    (h₀ : ∀ pid, (w₀.procs pid).Fresh) (hrun : (store decodeAll).run w₀ es = some w)
    (hlater : (store decodeAll).run w fs = some w')
    (hserved : (w.procs pid).threads tid = .served config.apiVersion conn)
    (hserved' : (w'.procs pid).threads tid' = .served config.apiVersion conn')
    {auth : AuthState} {events : List Event}
    (hcalls : (server S U config (Tools.catalog fromStr (tables conn.database))).run (.initial auth)
      events = some s)
    (n : Nat) {request : CallRequest} {executed : Executed}
    (hdone : s.calls n = .done request executed) :
    (∀ sent, executed.dispatched = some sent → ∃ answer endpoint,
      Tools.get fromStr (tables conn'.database) request.operationId = .success answer ∧
        endpointOf answer = some endpoint ∧ Makes U config endpoint request.arguments sent) ∧
    ∀ text, Tools.get fromStr (tables conn'.database) request.operationId = .error text →
      executed = stopped (.mcpify (.notFound text)) false executed.auth := by
  obtain rfl := conn_eq h₀ hrun hlater hserved hserved'
  have hinitial : Cataloged U config (Tools.catalog fromStr (tables conn.database))
      (.initial auth) :=
    ⟨by simp [Server.initial], by simp [Server.initial]⟩
  obtain ⟨hsent, hunknown⟩ := (cataloged_step.reach hinitial hcalls).done n request executed hdone
  rcases get_cases fromStr (tables conn.database) request.operationId with
    ⟨endpoint, -, hget, hfind⟩ | ⟨-, hget, hfind⟩
  · refine ⟨fun sent h => ?_, fun text htext => ?_⟩
    · obtain ⟨endpoint', hendpoint, hmakes⟩ := hsent sent h
      obtain rfl := Except.ok.inj (hfind.symm.trans hendpoint)
      exact ⟨_, _, hget, endpointOf_toValue endpoint, hmakes⟩
    · rw [hget] at htext
      simp at htext
  · refine ⟨fun sent h => ?_, fun text htext => ?_⟩
    · obtain ⟨endpoint', hendpoint, -⟩ := hsent sent h
      rw [hfind] at hendpoint
      simp at hendpoint
    · rw [hget] at htext
      obtain rfl := Tools.ToolResult.error.inj htext
      exact hunknown _ hfind

end

/-! ## A release in between -/

namespace Upgraded

open Paths.Incident Isolation.TwoClients

open TopdeskMcp.Theorems.Store (upgrade upgrade_fresh extraction reading)

/-- Nothing is JSON. -/
def fromStr : String → Option Json.Value := fun _ => none

def incident : Row where
  operationId := "getIncident"
  path := "/incidents/\x7bid\x7d"
  method := "GET"
  summary := some "Get an incident"
  description := none
  inputSchema := ""
  outputSchema := ""
  authSchemeRef := none

/-- The new release has another name for the operation. -/
def tables (image : Bytes) : Tables :=
  if image = [1] then ⟨[incident], [("getIncident", [])]⟩
  else ⟨[{ incident with operationId := "getIncidentById" }], [("getIncidentById", [])]⟩

/-- A thread of the old release has its connection, -/
def before : List TopdeskMcp.Store.Event := extraction 0 ++ reading 0

/-- ... the new release replaces the file, and another thread of the old one comes. -/
def after : List TopdeskMcp.Store.Event :=
  extraction 1 ++ [⟨0, 1, .resolve "general-1.2.0" true⟩, ⟨0, 1, .lookup⟩]

def early : Store.World := ((store some).run upgrade before).getD upgrade

def late : Store.World := ((store some).run early after).getD early

theorem run_early : (store some).run upgrade before = some early := rfl

theorem run_late : (store some).run early after = some late := rfl

theorem served_early : (early.procs 0).threads 0 = .served "general-1.2.0" ⟨0, [1]⟩ := rfl

theorem served_late : (late.procs 0).threads 1 = .served "general-1.2.0" ⟨0, [1]⟩ := rfl

/-- The file has changed, and the catalog has not. -/
theorem one_catalog_upgraded : late.dir "mcp_store.db" = some [2] ∧
    Consistent fromStr (tables [1]) (tables [1]) :=
  ⟨rfl, (one_catalog fromStr tables upgrade_fresh run_early run_late served_early served_late
    (by decide)).1⟩

theorem shown_is_sent_upgraded : ∃ s executed sent answer endpoint,
    (server schemas (.whatwg host) client.config (Tools.catalog fromStr (tables [1]))).run
      (.initial seeded) events = some s ∧
    s.calls 1 = .done (request "Basic Yzpk") executed ∧ executed.dispatched = some sent ∧
    Tools.get fromStr (tables [1]) "getIncident" = .success answer ∧
    endpointOf answer = some endpoint ∧
    Makes (.whatwg host) client.config endpoint (args "42") sent := by
  have hcalls : (server schemas (.whatwg host) client.config (Tools.catalog fromStr
      (tables [1]))).run (.initial seeded) events = some _ := rfl
  have hserved : (early.procs 0).threads 0 = .served client.config.apiVersion ⟨0, [1]⟩ :=
    served_early
  obtain ⟨hsent, -⟩ := shown_is_sent fromStr tables upgrade_fresh run_early run_late
    hserved served_late hcalls 1 rfl
  obtain ⟨answer, endpoint, hget, hendpoint, hmakes⟩ := hsent _ rfl
  exact ⟨_, _, _, answer, endpoint, rfl, rfl, rfl, hget, hendpoint, hmakes⟩

end Upgraded

end TopdeskMcp.Theorems.OneCatalog
