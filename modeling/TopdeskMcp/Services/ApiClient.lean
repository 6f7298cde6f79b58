import TopdeskMcp.Auth.AuthManager
import TopdeskMcp.Core.ApiUrlBuilder
import TopdeskMcp.Core.CircuitBreaker
import TopdeskMcp.Core.RateLimiter
import TopdeskMcp.Lib.Json

/-!
# The API client (`services/api_client.rs`)

From an endpoint record and an argument object to the requests that are sent.

* `parametersOf`, `namesWithLocation`, `pickByLocation` and `applyPathParams` take
  the arguments apart by where the endpoint declares them;
* `dispatch` sends one request until it gets a response or runs out of retries;
* `ApiClient.execute` passes the rate limiter, builds the request, lets the auth
  manager decorate it and hands it to `dispatch` through the circuit breaker.

What happens around one execution (when it starts and ends, what its sends meet,
what the auth manager finds) is `CallEnv`; what it does is `Executed`. The time
between the limiter's clock reading and the breaker's is not modelled.
-/

namespace TopdeskMcp

/-- The columns of an endpoint (`data/store.rs`) that a call reads. -/
structure EndpointRecord where
  path : String
  method : String
  inputSchema : Json.Value

def parametersOf (endpoint : EndpointRecord) : List Json.Value :=
  ((endpoint.inputSchema.get "parameters").bind Json.Value.asArray).getD []

def namesWithLocation (endpoint : EndpointRecord) (location : String) : List String :=
  ((parametersOf endpoint).filter fun param =>
    (param.get "in").bind Json.Value.asStr == some location).filterMap fun param =>
      (param.get "name").bind Json.Value.asStr

/-- A string is itself, anything else its JSON text. -/
def valueToPlainString : Json.Value → String
  | .string text => text
  | value => String.ofList value.write

/-- The members of an argument object; an argument that is no object has none. -/
abbrev Args := List (String × Json.Value)

def argsMap : Json.Value → Args
  | .object members => members
  | _ => []

/-- The plain string of an argument, empty when it is missing. -/
def plainArg (args : Args) (name : String) : String :=
  ((args.lookup name).map valueToPlainString).getD ""

/-- `percent_encoding::NON_ALPHANUMERIC` encodes all but letters and digits. -/
def encodeArg (value : String) : List Char := Percent.encode Char.isAlphanum value.toList

/-- The scan of `apply_path_params`: inside braces a name is collected, and an
unclosed one runs to the end. -/
def scanPath (args : Args) : Option (List Char) → List Char → List Char
  | none, [] => []
  | none, c :: chars =>
      if c = '{' then scanPath args (some []) chars else c :: scanPath args none chars
  | some name, [] => encodeArg (plainArg args (String.ofList name))
  | some name, c :: chars =>
      if c = '}' then encodeArg (plainArg args (String.ofList name)) ++ scanPath args none chars
      else scanPath args (some (name ++ [c])) chars

def applyPathParams (endpoint : EndpointRecord) (args : Args) : List Char :=
  scanPath args none endpoint.path.toList

def pickByLocation (endpoint : EndpointRecord) (args : Args) (location : String) :
    List (String × String) :=
  (namesWithLocation endpoint location).filterMap fun name =>
    (args.lookup name).map fun value => (name, valueToPlainString value)

/-! ## Dispatch -/

/-- What `execute` hands to `dispatch`. -/
structure Request where
  method : String
  url : List Char
  body : Option Json.Value
  headers : StringMap

/-- How one send ends: an error of the transport, or a response whose body may be
JSON. -/
inductive SendOutcome where
  | error (text : String)
  | response (status : Nat) (body : Option Json.Value)

/-- `error_for_status`, then the parsed body or null. -/
def readResponse (status : Nat) (body : Option Json.Value) : Except CallError Json.Value :=
  if 400 ≤ status ∧ status < 600 then .error (.status status) else .ok (body.getD .null)

/-- How far a dispatch gets: what it returns, if it does, and how many requests it
sends. -/
structure Dispatched where
  result : Option (Except CallError Json.Value)
  sends : Nat

/-- The retry loop, over what its sends meet; the last send never returns when the
list runs out. The attempt counter is a `u32` and wraps. -/
def dispatchLoop (retryAttempts : UInt32) (attempt : UInt32) : List SendOutcome → Dispatched
  | [] => { result := none, sends := 1 }
  -- any response ends the loop, an error status too: only the transport is retried
  | .response status body :: _ => { result := some (readResponse status body), sends := 1 }
  | .error text :: outcomes =>
      if retryAttempts < attempt + 1 then
        { result := some (.error (.transport text)), sends := 1 }
      else
        let rest := dispatchLoop retryAttempts (attempt + 1) outcomes
        { rest with sends := rest.sends + 1 }

/-- A method is a nonempty token. -/
def isMethod (method : String) : Bool :=
  method != "" && method.toList.all fun c =>
    c.isAlphanum || "!#$%&'*+-.^_`|~".toList.contains c

def dispatch (retryAttempts : UInt32) (request : Request) (outcomes : List SendOutcome) :
    Dispatched :=
  if isMethod request.method then dispatchLoop retryAttempts 0 outcomes
  else { result := some (.error .method), sends := 0 }

/-! ## Execution -/

structure ApiClient where
  config : Config
  circuitBreaker : CircuitBreaker
  rateLimiter : RateLimiter

/-- The circumstances of one execution. -/
structure CallEnv where
  start : Nat
  finish : Nat
  outcomes : List SendOutcome
  auth : AuthEnv

/-- What an execution does: whether the limiter let it pass, the headers the auth
manager returned, the request that reached `dispatch`, the number of sends, the value
returned, if the future resolves, and the auth manager it leaves behind. -/
structure Executed where
  result : Option (Except CallError Json.Value)
  granted : Bool
  decorated : Option StringMap
  dispatched : Option Request
  sends : Nat
  auth : AuthState

namespace ApiClient

def new (config : Config) : ApiClient where
  config := config
  circuitBreaker := .default
  rateLimiter := .new config.rateLimit.toNat (durationFromSecs 1)

/-- The headers before the auth manager decorates them. -/
def callHeaders (endpoint : EndpointRecord) (args : Args) : StringMap :=
  (pickByLocation endpoint args "header").foldl
    (fun headers header => headers.insert header.1 header.2)
    (((∅ : StringMap).insert "Content-Type" "application/json").insert "User-Agent"
      "mcpify-client/0.1.0 (generated by mcpify)")

def callUrl (U : UrlCrate) (config : Config) (endpoint : EndpointRecord) (args : Args) :
    Option (List Char) :=
  buildApiUrl U config.url.toList (applyPathParams endpoint args)
    (pickByLocation endpoint args "query")

/-- The middle of `execute`: the address, then the headers. -/
def prepare (U : UrlCrate) (config : Config) (endpoint : EndpointRecord) (args : Args)
    (requestOverride : Option RequestCredentials) (env : AuthEnv) (auth : AuthState) :
    Except CallError Request × AuthState :=
  match callUrl U config endpoint args with
  | none => (.error .url, auth)
  | some url =>
      let decorated := AuthManager.applyAuthHeaders env auth (callHeaders endpoint args)
        config.transport requestOverride
      (decorated.1.map fun headers =>
        { method := endpoint.method, url, body := args.lookup "body", headers }, decorated.2)

/-- The error `execute` makes of what the breaker returns. -/
def breakerResult : Except (CircuitBreakerError CallError) Json.Value → Except CallError Json.Value
  | .ok value => .ok value
  | .error .opened => .error (.message "circuit breaker is open")
  | .error (.inner err) => .error err

/-- The end of `execute`: the request goes through the breaker. -/
def send (client : ApiClient) (request : Request) (env : CallEnv) (auth : AuthState) :
    Executed × ApiClient :=
  let sent := dispatch client.config.retryAttempts request env.outcomes
  let settled := client.circuitBreaker.execute env.start env.finish fun _ => sent.result
  let admitted := (client.circuitBreaker.enter env.start).isSome
  ({ result := settled.1.map breakerResult
     granted := true
     decorated := some request.headers
     dispatched := if admitted then some request else none
     sends := if admitted then sent.sends else 0
     auth }, { client with circuitBreaker := settled.2 })

/-- An execution that ends before the breaker. -/
def stopped (err : CallError) (granted : Bool) (auth : AuthState) : Executed where
  result := some (.error err)
  granted := granted
  decorated := none
  dispatched := none
  sends := 0
  auth := auth

def execute (U : UrlCrate) (client : ApiClient) (endpoint : EndpointRecord) (args : Json.Value)
    (requestOverride : Option RequestCredentials) (env : CallEnv) (auth : AuthState) :
    Executed × ApiClient :=
  let acquired := client.rateLimiter.acquire env.start
  let client := { client with rateLimiter := acquired.2 }
  match acquired.1 with
  | .error err => (stopped (.mcpify err) false auth, client)
  | .ok () =>
      -- a call that cannot be built has used up its grant
      let prepared := prepare U client.config endpoint (argsMap args) requestOverride env.auth auth
      match prepared.1 with
      | .error err => (stopped err true prepared.2, client)
      | .ok request => client.send request env prepared.2

/-! ### What an execution that reaches a stage has passed -/

variable {U : UrlCrate} {client : ApiClient} {endpoint : EndpointRecord} {args : Json.Value}
  {requestOverride : Option RequestCredentials} {env : CallEnv} {auth : AuthState}

/-- What `prepare` returns is the address of the call with the headers the auth
manager returned. -/
theorem prepare_eq_ok {config : Config} {members : Args} {env : AuthEnv} {request : Request}
    (h : (prepare U config endpoint members requestOverride env auth).1 = .ok request) :
    ∃ url headers, callUrl U config endpoint members = some url ∧
      (AuthManager.applyAuthHeaders env auth (callHeaders endpoint members) config.transport
        requestOverride).1 = .ok headers ∧
      request = { method := endpoint.method, url, body := members.lookup "body", headers } := by
  unfold prepare at h
  split at h
  · simp at h
  · rename_i url hurl
    dsimp only at h
    cases hheaders : (AuthManager.applyAuthHeaders env auth (callHeaders endpoint members)
        config.transport requestOverride).1 with
    | error err =>
        rw [hheaders] at h
        simp [Except.map] at h
    | ok headers =>
        rw [hheaders] at h
        exact ⟨url, headers, hurl, rfl, (Except.ok.inj h).symm⟩

theorem execute_of_rejected {err : McpifyError}
    (h : (client.rateLimiter.acquire env.start).1 = .error err) :
    client.execute U endpoint args requestOverride env auth =
      (stopped (.mcpify err) false auth,
        { client with rateLimiter := (client.rateLimiter.acquire env.start).2 }) := by
  simp only [execute, h]

theorem execute_of_unprepared {err : CallError}
    (h : (client.rateLimiter.acquire env.start).1 = .ok ())
    (hprepare : (prepare U client.config endpoint (argsMap args) requestOverride env.auth auth).1 =
      .error err) :
    client.execute U endpoint args requestOverride env auth =
      (stopped err true
          (prepare U client.config endpoint (argsMap args) requestOverride env.auth auth).2,
        { client with rateLimiter := (client.rateLimiter.acquire env.start).2 }) := by
  simp only [execute, h, hprepare]

theorem execute_of_prepared {request : Request}
    (h : (client.rateLimiter.acquire env.start).1 = .ok ())
    (hprepare : (prepare U client.config endpoint (argsMap args) requestOverride env.auth auth).1 =
      .ok request) :
    client.execute U endpoint args requestOverride env auth =
      ({ client with rateLimiter := (client.rateLimiter.acquire env.start).2 } : ApiClient).send
        request env
        (prepare U client.config endpoint (argsMap args) requestOverride env.auth auth).2 := by
  simp only [execute, h, hprepare]

/-- A request reaches `dispatch` only as `prepare` built it. -/
theorem execute_dispatched {request : Request}
    (h : (client.execute U endpoint args requestOverride env auth).1.dispatched = some request) :
    (prepare U client.config endpoint (argsMap args) requestOverride env.auth auth).1 =
      .ok request := by
  cases hacquire : (client.rateLimiter.acquire env.start).1 with
  | error err => simp [execute_of_rejected hacquire, stopped] at h
  | ok granted =>
      cases hprepare : (prepare U client.config endpoint (argsMap args) requestOverride env.auth
          auth).1 with
      | error err => simp [execute_of_unprepared hacquire hprepare, stopped] at h
      | ok request' =>
          rw [execute_of_prepared hacquire hprepare] at h
          simp only [send] at h
          split at h
          · rw [Option.some.inj h]
          · simp at h

/-- What the breaker becomes when an admitted call ends. -/
def settle (b : CircuitBreaker) (finish : Nat) :
    Option (Except CallError Json.Value) → CircuitBreaker
  | none => b
  | some (.ok _) => b.onSuccess
  | some (.error _) => b.onFailure finish

/-- A request that the breaker admits is dispatched, and its result returned. -/
theorem send_of_enter {request : Request} {b : CircuitBreaker}
    (h : client.circuitBreaker.enter env.start = some b) :
    let sent := dispatch client.config.retryAttempts request env.outcomes
    client.send request env auth =
      ({ result := sent.result, granted := true, decorated := some request.headers,
         dispatched := some request, sends := sent.sends, auth },
       { client with circuitBreaker := settle b env.finish sent.result }) := by
  intro sent
  have hresult : ∀ result : Option (Except CallError Json.Value),
      client.circuitBreaker.execute env.start env.finish (fun _ => result) =
        (result.map (Except.mapError .inner), settle b env.finish result) := by
    intro result
    simp only [CircuitBreaker.execute, h]
    rcases result with _ | (_ | _) <;> rfl
  have hinner : ∀ result : Option (Except CallError Json.Value),
      (result.map (Except.mapError .inner)).map breakerResult = result := by
    rintro (_ | (_ | _)) <;> rfl
  simp only [send, hresult, hinner, h, Option.isSome_some, if_true, sent]

theorem send_of_rejected {request : Request} (h : client.circuitBreaker.enter env.start = none) :
    client.send request env auth =
      ({ result := some (.error (.message "circuit breaker is open")), granted := true,
         decorated := some request.headers, dispatched := none, sends := 0, auth }, client) := by
  simp [send, CircuitBreaker.execute, h, breakerResult]

end ApiClient

end TopdeskMcp
