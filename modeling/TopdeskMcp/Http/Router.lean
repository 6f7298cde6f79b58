import TopdeskMcp.Core.HealthCheckManager
import TopdeskMcp.Core.McpServer
import TopdeskMcp.Http.Metrics
import TopdeskMcp.Lib.SocketAddr

/-!
# The routes of the HTTP server (`http/server.rs`)

`/healthz` and `/metrics` are answered by handlers, and what comes to `/mcp` goes through a gate
to `rmcp`, which hands the calls in it to the server of `core/mcp_server.rs`. The gate is a layer
of the router that is merged in, so that router's fallback is behind it too: a path that has no
route is refused or not found. Every response passes the layer that sets the CORS header.

`gateway` is the process that serves any number of requests, with the calls they bring and the
health checks in between, in any order of steps. Counting a request and answering it are two
steps, and `rmcp` may hand out the calls of a request at any time once it has it. Content types
and lengths are left out.
-/

namespace TopdeskMcp.Http

open Net (IpAddr Ipv4Addr Ipv6Addr)

/-- `IpAddr::is_loopback`: `127.0.0.0/8` and `::1`, but no version 4 address that is mapped. -/
def isLoopback : IpAddr → Bool
  | .v4 ip => ip.a == 127
  | .v6 ip => ip.segments.toList == [0, 0, 0, 0, 0, 0, 0, 1]

/-- `http/localhost_detector.rs`. -/
def isLocalhost (addr : IpAddr) : Bool := isLoopback addr

inductive Body where
  | empty
  | json (value : Json.Value)
  | text (text : String)
  | bytes (bytes : Bytes)

structure Response where
  status : Nat
  headers : HeaderMap
  body : Body

/-- The header replaces all of its name. -/
def insertHeader (headers : HeaderMap) (name : String) (value : Bytes) : HeaderMap :=
  headers.filter (fun header => lowerCase header.1 != lowerCase name) ++ [(name, value)]

/-- Where the credential of the auth method is declared to travel. -/
structure AppState where
  headerLocation : String
  headerName : String

/-- What `run_harness_server` hands on. -/
def AppState.ofConfig (config : Config) : AppState where
  headerLocation := (headerLocationFor config.authMethod).1
  headerName := (headerLocationFor config.authMethod).2

/-- `Debug` of a status. -/
def debugStatus : ComponentStatus → String
  | .healthy => "Healthy"
  | .degraded => "Degraded"
  | .unhealthy => "Unhealthy"

def healthz (registry : ComponentRegistry) : Response where
  status := if registry.overallStatus = .unhealthy then 503 else 200
  headers := []
  body := .json (.object
    [("status", .string (debugStatus registry.overallStatus)),
     ("components", .number registry.states.length.repr)])

/-- The name of the one counter. -/
def httpRequestsTotal : String := "http_requests_total"

/-- The second half of `metrics_handler`, with the counters it finds. -/
def renderedMetrics (counters : Metrics.Counters) : Response where
  status := 200
  headers := []
  body := .text (Metrics.renderMetrics (Metrics.entries counters))

def unauthorized : Response where
  status := 401
  headers := []
  body := .json (.object
    [("error", .string "missing or invalid credentials for this API's auth method")])

/-- The response of the gate itself; `none` when the request is passed on. -/
def authGate (state : AppState) (addr : IpAddr) (headers : HeaderMap) : Option Response :=
  let relaxed := isLocalhost addr
  if !relaxed ∧
      (extractRequestCredentials headers state.headerLocation state.headerName).toOption.isNone then
    some unauthorized
  else none

/-- An origin that is no header value sets nothing; `parse` is that of `HeaderValue`. -/
def setCorsHeader (parse : String → Option Bytes) (corsAllow : Option String)
    (response : Response) : Response :=
  match corsAllow.bind parse with
  | some value =>
      { response with
        headers := insertHeader response.headers "Access-Control-Allow-Origin" value }
  | none => response

/-! ## The routes -/

/-- Where a path leads: `unrouted` is the fallback. -/
inductive Route where
  | healthz
  | metrics
  | mcp
  | unrouted
  deriving DecidableEq

/-- `nest_service` takes all paths below its own. -/
def routeOf (path : String) : Route :=
  if path = "/healthz" then .healthz
  else if path = "/metrics" then .metrics
  else if path = "/mcp" ∨ "/mcp/".toList <+: path.toList then .mcp
  else .unrouted

/-- A request and the address of its peer. -/
structure Incoming where
  method : String
  path : String
  addr : IpAddr
  headers : HeaderMap

namespace Incoming

variable (incoming : Incoming)

def route : Route := routeOf incoming.path

/-- What `routing::get` serves. -/
def isGet : Bool := incoming.method == "GET" || incoming.method == "HEAD"

end Incoming

/-- What `routing::get` answers to other methods. -/
def methodNotAllowed : Response where
  status := 405
  headers := [("allow", Utf8.encode "GET,HEAD")]
  body := .empty

/-- The fallback. -/
def notFound : Response where
  status := 404
  headers := []
  body := .empty

/-! ## The process -/

inductive RequestState where
  | absent
  | handling (incoming : Incoming)
  | answered (incoming : Incoming) (response : Response)

/-- `inbox` has the requests that `rmcp` was given. -/
structure Gateway where
  counters : Metrics.Counters
  health : HealthCheckManager
  mcp : Server
  inbox : Nat → Option Incoming
  requests : Nat → RequestState

/-- `respond` ends a handler; on `/mcp` the response is that of `rmcp`. A report is the part of
`run_once` that is done under the lock. -/
inductive Event where
  | receive (id : Nat) (incoming : Incoming)
  | deliver (id call : Nat) (operationId : String) (arguments : Json.Value)
  | mcp (event : Server.Event)
  | report (check : Nat) (outcome : CheckOutcome) (now : Nat)
  | respond (id : Nat) (inner : Response)

/-- The configuration, and the parsers and the catalog that are given. -/
structure App where
  schemas : Schemas
  urlCrate : UrlCrate
  config : Config
  catalog : Catalog
  headerValue : String → Option Bytes

namespace App

variable (app : App)

def state : AppState := .ofConfig app.config

def cors (response : Response) : Response :=
  setCorsHeader app.headerValue app.config.corsAllow response

/-- What is sent to the client: to `HEAD` a response without its body. -/
def answer (incoming : Incoming) (response : Response) : Response :=
  if incoming.method = "HEAD" then { app.cors response with body := .empty } else app.cors response

/-- Whether the gate lets a request through. -/
def Admits (incoming : Incoming) : Prop :=
  authGate app.state incoming.addr incoming.headers = none

end App

namespace Gateway

def setRequest (s : Gateway) (id : Nat) (state : RequestState) : Gateway :=
  { s with requests := Function.update s.requests id state }

def count (s : Gateway) : Gateway :=
  { s with counters := Metrics.increment httpRequestsTotal s.counters }

def accept (s : Gateway) (id : Nat) (incoming : Incoming) : Gateway :=
  { s with inbox := Function.update s.inbox id (some incoming) }

def finish (app : App) (s : Gateway) (id : Nat) (incoming : Incoming) (response : Response) :
    Gateway :=
  s.setRequest id (.answered incoming (app.answer incoming response))

/-- `routing::get`, with what the handler does up to its first wait. -/
def get (app : App) (s : Gateway) (id : Nat) (incoming : Incoming)
    (handler : Gateway → Gateway) : Gateway :=
  if incoming.isGet then (handler s).setRequest id (.handling incoming)
  else s.finish app id incoming methodNotAllowed

/-- The layer of `auth_gate`, with what a request that it passes on does. -/
def gated (app : App) (s : Gateway) (id : Nat) (incoming : Incoming)
    (next : Gateway → Gateway) : Gateway :=
  match authGate app.state incoming.addr incoming.headers with
  | some response => s.count.finish app id incoming response
  | none => (next s.count).setRequest id (.handling incoming)

/-- Up to the first wait of a handler, or through the gate. -/
def receive (app : App) (s : Gateway) (id : Nat) (incoming : Incoming) : Gateway :=
  match incoming.route with
  | .healthz => s.get app id incoming fun s => s
  | .metrics => s.get app id incoming count
  | .mcp => s.gated app id incoming fun s => s.accept id incoming
  | .unrouted => s.gated app id incoming fun s => s

/-- A step of the server of the calls. -/
def serverStep (app : App) (s : Gateway) (event : Server.Event) : Option Gateway :=
  (Server.step app.schemas app.urlCrate app.config app.catalog s.mcp event).map fun mcp =>
    { s with mcp }

/-- What a handler ends with. -/
def response (s : Gateway) (route : Route) (inner : Response) : Response :=
  match route with
  | .healthz => healthz s.health.registry
  | .metrics => renderedMetrics s.counters
  | .mcp => inner
  | .unrouted => notFound

def report (s : Gateway) (check : Nat) (outcome : CheckOutcome) (now : Nat) : Gateway :=
  match s.health.checks[check]? with
  | none => s
  | some name =>
      { s with
        health.registry := s.health.registry.report name outcome.status outcome.error now }

def step (app : App) (s : Gateway) : Event → Option Gateway
  | .receive id incoming =>
      match s.requests id with
      | .absent => some (s.receive app id incoming)
      | _ => none
  | .deliver id call operationId arguments =>
      match s.inbox id with
      | some incoming => s.serverStep app
          (.arrive call { operationId, arguments, parts := some incoming.headers })
      | none => none
  | .mcp event =>
      match event with
      | .arrive _ _ => none
      | _ => s.serverStep app event
  | .report check outcome now => some (s.report check outcome now)
  | .respond id inner =>
      match s.requests id with
      | .handling incoming =>
          some (s.finish app id incoming (s.response incoming.route inner))
      | _ => none

/-- No request yet, and the checks registered. -/
def initial (auth : AuthState) (checks : List (String × Bool)) : Gateway where
  counters := ∅
  health := checks.foldl (fun m check => m.register check.1 check.2) (.new .new)
  mcp := .initial auth
  inbox := fun _ => none
  requests := fun _ => .absent

/-- The check of `run_harness_server`. -/
def harnessChecks : List (String × Bool) := [("store", true)]

end Gateway

/-- Any number of requests on one process, in any order of steps. -/
def gateway (app : App) : Trace.Lts Gateway Event where
  init s := ∃ auth checks, s = .initial auth checks
  step := Gateway.step app

namespace Gateway

variable {app : App} {s s' : Gateway} {id : Nat} {incoming : Incoming}

theorem mcp_receive : (s.receive app id incoming).mcp = s.mcp := by
  unfold receive get gated
  split <;> split <;> rfl

theorem health_receive : (s.receive app id incoming).health = s.health := by
  unfold receive get gated
  split <;> split <;> rfl

theorem counters_get {handler : Gateway → Gateway} : (s.get app id incoming handler).counters =
    if incoming.isGet then (handler s).counters else s.counters := by
  unfold get
  split <;> rfl

theorem counters_gated {next : Gateway → Gateway}
    (h : (next s.count).counters = s.count.counters) :
    (s.gated app id incoming next).counters = s.count.counters := by
  unfold gated
  split
  · rfl
  · exact h

theorem requests_receive_of_ne {other : Nat} (h : other ≠ id) :
    (s.receive app id incoming).requests other = s.requests other := by
  unfold receive get gated finish
  split <;> split <;> simp [setRequest, count, accept, h]

/-- A request is handled by a handler of its method, or behind the gate. -/
theorem requests_receive_self {found : Incoming}
    (h : (s.receive app id incoming).requests id = .handling found) :
    incoming = found ∧ (incoming.route = .metrics → incoming.isGet = true) := by
  unfold receive at h
  split at h
  · rename_i hroute
    unfold get finish at h
    split at h
    · simpa [setRequest, hroute] using h
    · simp [setRequest] at h
  · unfold get finish at h
    split at h
    · rename_i hget
      simpa [setRequest, hget] using h
    · simp [setRequest] at h
  · rename_i hroute
    unfold gated finish at h
    split at h
    · simp [setRequest] at h
    · simpa [setRequest, hroute] using h
  · rename_i hroute
    unfold gated finish at h
    split at h
    · simp [setRequest] at h
    · simpa [setRequest, hroute] using h

/-- All a step does: to the requests, to the calls, to the counters and to the checks. -/
theorem step_cases {e : Event} (h : s.step app e = some s') :
    (∃ id incoming, e = .receive id incoming ∧ s.requests id = .absent ∧
      s' = s.receive app id incoming) ∨
    (∃ id call operationId arguments incoming mcp, e = .deliver id call operationId arguments ∧
      s.inbox id = some incoming ∧
      Server.step app.schemas app.urlCrate app.config app.catalog s.mcp (.arrive call
        { operationId, arguments, parts := some incoming.headers }) = some mcp ∧
      s' = { s with mcp }) ∨
    (∃ event mcp, e = .mcp event ∧ (∀ call request, event ≠ .arrive call request) ∧
      Server.step app.schemas app.urlCrate app.config app.catalog s.mcp event = some mcp ∧
      s' = { s with mcp }) ∨
    (∃ check outcome now, e = .report check outcome now ∧ s' = s.report check outcome now) ∨
    (∃ id inner incoming, e = .respond id inner ∧ s.requests id = .handling incoming ∧
      s' = s.finish app id incoming (s.response incoming.route inner)) := by
  cases e with
  | receive id incoming =>
      simp only [step] at h
      split at h
      · rename_i habsent
        exact .inl ⟨id, incoming, rfl, habsent, (Option.some.inj h).symm⟩
      · simp at h
  | deliver id call operationId arguments =>
      simp only [step] at h
      split at h
      · rename_i incoming hinbox
        obtain ⟨mcp, hmcp, rfl⟩ := Option.map_eq_some_iff.mp h
        exact .inr (.inl ⟨id, call, operationId, arguments, incoming, mcp, rfl, hinbox, hmcp, rfl⟩)
      · simp at h
  | mcp event =>
      simp only [step] at h
      split at h
      · simp at h
      · rename_i hevent
        obtain ⟨mcp, hmcp, rfl⟩ := Option.map_eq_some_iff.mp h
        exact .inr (.inr (.inl ⟨event, mcp, rfl, hevent, hmcp, rfl⟩))
  | report check outcome now =>
      exact .inr (.inr (.inr (.inl ⟨check, outcome, now, rfl, (Option.some.inj h).symm⟩)))
  | respond id inner =>
      simp only [step] at h
      split at h
      · rename_i incoming hhandling
        exact .inr (.inr (.inr (.inr
          ⟨id, inner, incoming, rfl, hhandling, (Option.some.inj h).symm⟩)))
      · simp at h

end Gateway

end TopdeskMcp.Http
