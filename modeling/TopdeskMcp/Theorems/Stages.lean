import TopdeskMcp.Theorems.Isolation
import TopdeskMcp.Validation.Validator

/-!
# The stages of a call

A call is validated, passes the limiter, gets its address and its headers, passes the breaker,
and is sent. A stage that fails ends the call: `execute_cases` says for each stage what an
execution that ends there has done. Either everything has passed, or nothing was sent and the
breaker is as it was (`halted_or_passed`), whatever the stages behind the failing one would
have said.
-/

namespace TopdeskMcp.Theorems.Stages

open TopdeskMcp ApiClient Validator

section

variable {U : UrlCrate} {endpoint : EndpointRecord} {args : Json.Value}

/-! ## One execution -/

/-- What the auth manager does for the call. -/
def applied (config : Config) (endpoint : EndpointRecord) (args : Json.Value)
    (requestOverride : Option RequestCredentials) (env : CallEnv) (auth : AuthState) :
    Except CallError StringMap × AuthState :=
  AuthManager.applyAuthHeaders env.auth auth (callHeaders endpoint (argsMap args))
    config.transport requestOverride

/-- The request of a call with this address and these headers. -/
def requestOf (endpoint : EndpointRecord) (args : Json.Value) (url : List Char)
    (headers : StringMap) : Request where
  method := endpoint.method
  url := url
  body := (argsMap args).lookup "body"
  headers := headers

/-- Nothing is sent, and the breaker is as it was. -/
structure Halted (client : ApiClient) (after : Executed × ApiClient) : Prop where
  dispatched : after.1.dispatched = none
  sends : after.1.sends = 0
  breaker : after.2.circuitBreaker = client.circuitBreaker

/-- Every stage before the dispatch has passed, and the request is the one they made. -/
structure Passed (U : UrlCrate) (client : ApiClient) (endpoint : EndpointRecord)
    (args : Json.Value) (requestOverride : Option RequestCredentials) (env : CallEnv)
    (auth : AuthState) (dispatched : Option Request) : Prop where
  limiter : (client.rateLimiter.acquire env.start).1 = .ok ()
  request : ∃ url headers, callUrl U client.config endpoint (argsMap args) = some url ∧
    (applied client.config endpoint args requestOverride env auth).1 = .ok headers ∧
    dispatched = some (requestOf endpoint args url headers)
  breaker : client.circuitBreaker.enter env.start ≠ none

theorem prepare_of_no_url {config : Config}
    (h : callUrl U config endpoint (argsMap args) = none)
    (requestOverride : Option RequestCredentials) (env : CallEnv) (auth : AuthState) :
    prepare U config endpoint (argsMap args) requestOverride env.auth auth =
      (.error .url, auth) := by
  simp only [prepare, h]

theorem prepare_of_url {config : Config} {url : List Char}
    (h : callUrl U config endpoint (argsMap args) = some url)
    (requestOverride : Option RequestCredentials) (env : CallEnv) (auth : AuthState) :
    prepare U config endpoint (argsMap args) requestOverride env.auth auth =
      ((applied config endpoint args requestOverride env auth).1.map (requestOf endpoint args url),
       (applied config endpoint args requestOverride env auth).2) := by
  simp only [prepare, h]
  rfl

/-- All that an execution can do: it ends at a stage, or it is sent. -/
theorem execute_cases (U : UrlCrate) (client : ApiClient) (endpoint : EndpointRecord)
    (args : Json.Value) (requestOverride : Option RequestCredentials) (env : CallEnv)
    (auth : AuthState) :
    let after := client.execute U endpoint args requestOverride env auth
    let drained := { client with rateLimiter := (client.rateLimiter.acquire env.start).2 }
    let authorized := applied client.config endpoint args requestOverride env auth
    (∃ err, (client.rateLimiter.acquire env.start).1 = .error err ∧
      after = (stopped (.mcpify err) false auth, drained)) ∨
    (callUrl U client.config endpoint (argsMap args) = none ∧
      after = (stopped .url true auth, drained)) ∨
    (∃ err, authorized.1 = .error err ∧ after = (stopped err true authorized.2, drained)) ∨
    (∃ headers, client.circuitBreaker.enter env.start = none ∧
      after = ({ result := some (.error (.message "circuit breaker is open")), granted := true,
                 decorated := some headers, dispatched := none, sends := 0,
                 auth := authorized.2 }, drained)) ∨
    Passed U client endpoint args requestOverride env auth after.1.dispatched := by
  intro after drained authorized
  cases hacquire : (client.rateLimiter.acquire env.start).1 with
  | error err => exact .inl ⟨err, rfl, execute_of_rejected hacquire⟩
  | ok granted =>
      cases hurl : callUrl U client.config endpoint (argsMap args) with
      | none =>
          have hprepare := prepare_of_no_url hurl requestOverride env auth
          have hafter := execute_of_unprepared hacquire (congrArg Prod.fst hprepare)
          rw [hprepare] at hafter
          exact .inr (.inl ⟨rfl, hafter⟩)
      | some url =>
          have hprepare := prepare_of_url hurl requestOverride env auth
          cases happlied : authorized.1 with
          | error err =>
              have hfirst : (prepare U client.config endpoint (argsMap args) requestOverride
                  env.auth auth).1 = .error err := by
                rw [hprepare]
                exact congrArg (Except.map _) happlied
              have hafter := execute_of_unprepared hacquire hfirst
              rw [hprepare] at hafter
              exact .inr (.inr (.inl ⟨err, rfl, hafter⟩))
          | ok headers =>
              have hfirst : (prepare U client.config endpoint (argsMap args) requestOverride
                  env.auth auth).1 = .ok (requestOf endpoint args url headers) := by
                rw [hprepare]
                exact congrArg (Except.map _) happlied
              have hafter := execute_of_prepared hacquire hfirst
              rw [hprepare] at hafter
              cases henter : client.circuitBreaker.enter env.start with
              | none =>
                  have hrejected : drained.circuitBreaker.enter env.start = none := henter
                  rw [send_of_rejected hrejected] at hafter
                  exact .inr (.inr (.inr (.inl ⟨headers, rfl, hafter⟩)))
              | some b =>
                  have hadmitted : drained.circuitBreaker.enter env.start = some b := henter
                  rw [send_of_enter hadmitted] at hafter
                  refine .inr (.inr (.inr (.inr ⟨hacquire, ⟨url, headers, hurl, happlied, ?_⟩, ?_⟩)))
                  · exact congrArg (fun after => after.1.dispatched) hafter
                  · rw [henter]
                    simp

/-- Whichever stage ends an execution, it is halted there. -/
theorem halted_or_passed (U : UrlCrate) (client : ApiClient) (endpoint : EndpointRecord)
    (args : Json.Value) (requestOverride : Option RequestCredentials) (env : CallEnv)
    (auth : AuthState) :
    let after := client.execute U endpoint args requestOverride env auth
    Halted client after ∨
      Passed U client endpoint args requestOverride env auth after.1.dispatched := by
  intro after
  rcases execute_cases U client endpoint args requestOverride env auth with
    ⟨err, -, heq⟩ | ⟨-, heq⟩ | ⟨err, -, heq⟩ | ⟨headers, -, heq⟩ | hpassed
  · left
    rw [show after = _ from heq]
    exact ⟨rfl, rfl, rfl⟩
  · left
    rw [show after = _ from heq]
    exact ⟨rfl, rfl, rfl⟩
  · left
    rw [show after = _ from heq]
    exact ⟨rfl, rfl, rfl⟩
  · left
    rw [show after = _ from heq]
    exact ⟨rfl, rfl, rfl⟩
  · exact .inr hpassed

/-- Each stage that fails halts the execution, and what is sent has passed them all. -/
structure Contained (U : UrlCrate) (client : ApiClient) (endpoint : EndpointRecord)
    (args : Json.Value) (requestOverride : Option RequestCredentials) (env : CallEnv)
    (auth : AuthState) (after : Executed × ApiClient) : Prop where
  limiter : ∀ err, (client.rateLimiter.acquire env.start).1 = .error err → Halted client after
  url : callUrl U client.config endpoint (argsMap args) = none → Halted client after
  headers : ∀ err, (applied client.config endpoint args requestOverride env auth).1 = .error err →
    Halted client after
  breaker : client.circuitBreaker.enter env.start = none → Halted client after
  sent : after.1.dispatched.isSome ∨ 0 < after.1.sends →
    Passed U client endpoint args requestOverride env auth after.1.dispatched

theorem contained_execute (U : UrlCrate) (client : ApiClient) (endpoint : EndpointRecord)
    (args : Json.Value) (requestOverride : Option RequestCredentials) (env : CallEnv)
    (auth : AuthState) :
    Contained U client endpoint args requestOverride env auth
      (client.execute U endpoint args requestOverride env auth) := by
  have hcases := halted_or_passed U client endpoint args requestOverride env auth
  constructor
  · intro err hlimiter
    refine hcases.resolve_right fun hpassed => ?_
    rw [hpassed.limiter] at hlimiter
    simp at hlimiter
  · intro hurl
    refine hcases.resolve_right fun hpassed => ?_
    obtain ⟨url, headers, hsome, -⟩ := hpassed.request
    rw [hurl] at hsome
    simp at hsome
  · intro err hauth
    refine hcases.resolve_right fun hpassed => ?_
    obtain ⟨url, headers, -, hok, -⟩ := hpassed.request
    rw [hauth] at hok
    simp at hok
  · intro hbreaker
    exact hcases.resolve_right fun hpassed => hpassed.breaker hbreaker
  · intro hsent
    refine hcases.resolve_left fun hhalted => ?_
    rw [hhalted.dispatched, hhalted.sends] at hsent
    simp at hsent

end

/-! ## One call -/

section

variable {J : JsonSchema} {decode : String → Option SchemaMap} {config : Config}
  {made : List Validation} {s : Caches J}

/-- The output schemas only decide what is logged. -/
theorem executed_output (S : Schemas) (output : String → String → Json.Value → Option (List String))
    (U : UrlCrate) (config : Config) (i : Invocation) (auth : AuthState) :
    (callOperation { S with output } U config i auth).executed =
      (callOperation S U config i auth).executed := by
  have hsame : validateInput { S with output } config.apiVersion i.operationId i.args =
      validateInput S config.apiVersion i.operationId i.args := rfl
  cases hvalid : validateInput S config.apiVersion i.operationId i.args with
  | error err =>
      rw [callOperation_of_invalid hvalid, callOperation_of_invalid (hsame.trans hvalid)]
  | ok valid =>
      rw [callOperation_of_valid hvalid, callOperation_of_valid (hsame.trans hvalid)]

/-- **Failures before dispatch.** In a process that validates for its configured version, a call
whose arguments are invalid does nothing else; an execution that fails in the limiter, at the
address, in the auth manager or at the breaker sends nothing and leaves the breaker as it was;
and a request is sent only with arguments that satisfy the schema of the version and the
operation, and after every stage has passed. What the output schemas say changes nothing. -/
theorem failures_contained (hversion : ∀ v ∈ made, v.apiVersion = config.apiVersion)
    (hrun : (validations J decode).run (.empty J) made = some s)
    (output : String → String → Json.Value → Option (List String)) (U : UrlCrate)
    (i : Invocation) (auth : AuthState) :
    let called := callOperation { input := inputs decode s, output } U config i auth
    (∀ err, (Validator.validateInput decode s config.apiVersion i.operationId i.args).1 =
        .error err →
      called.executed = stopped (.mcpify err) false auth) ∧
    (∀ client : ApiClient, Contained U client i.endpoint i.args i.requestOverride i.env auth
      (client.execute U i.endpoint i.args i.requestOverride i.env auth)) ∧
    (called.executed.dispatched.isSome ∨ 0 < called.executed.sends →
      J.isValid (freshValidator J decode OperationSchemas.inputSchema
        (config.apiVersion, i.operationId)) i.args = true ∧
      Passed U (.new config) i.endpoint i.args i.requestOverride i.env auth
        called.executed.dispatched) ∧
    ∀ output', (callOperation { input := inputs decode s, output := output' } U config i
      auth).executed = called.executed := by
  intro called
  have hvalidate := validateInput_inputs decode s output config.apiVersion i.operationId i.args
  refine ⟨?_, fun client => contained_execute .., ?_, ?_⟩
  · intro err herr
    show (callOperation _ U config i auth).executed = _
    rw [callOperation_of_invalid (hvalidate.trans herr)]
  · intro hsent
    cases hvalid : (Validator.validateInput decode s config.apiVersion i.operationId i.args).1 with
    | error err =>
        have hstopped : called.executed = stopped (.mcpify err) false auth := by
          show (callOperation _ U config i auth).executed = _
          rw [callOperation_of_invalid (hvalidate.trans hvalid)]
        rw [hstopped] at hsent
        simp [stopped] at hsent
    | ok valid =>
        have hexecuted : called.executed = _ := callOperation_of_valid (hvalidate.trans hvalid)
        rw [hexecuted] at hsent ⊢
        refine ⟨?_, (contained_execute ..).sent hsent⟩
        rw [← (fresh_run hversion hrun).inputs_eq_none_iff (separate_of_version _) rfl i.args]
        have haccepted := hvalidate.trans hvalid
        unfold TopdeskMcp.validateInput at haccepted
        dsimp only at haccepted
        split at haccepted
        · assumption
        · simp at haccepted
  · intro output'
    exact executed_output { input := inputs decode s, output } output' U config i auth

end

namespace Required

open Paths.Incident

/-- Compiles the empty schema and schemas that demand a type. -/
def types : JsonSchema where
  Validator := Option String
  validatorFor schema := match schema with
    | .object [] => some none
    | .object [("type", .string name)] => some (some name)
    | _ => none
  isValid demanded data := match demanded, data with
    | some "object", .object _ => true
    | some "object", _ => false
    | _, _ => true
  iterErrors _ data := [String.ofList data.write ++ " is not of type \"object\""]
  empty := none
  validatorFor_empty := rfl

/-- One operation, which wants an object. -/
def decode (file : String) : Option SchemaMap :=
  if file = "generated_schemas.json.zst" then
    some ((∅ : SchemaMap).insert "getIncident"
      { inputSchema := .object [("type", .string "object")], outputSchema := .object [] })
  else none

def made : List Validation := [⟨.input, "general-1.2.0", "getIncident", .null⟩]

def invocation (args : Json.Value) : Invocation where
  endpoint := endpoint
  operationId := "getIncident"
  args := args
  requestOverride := some basicHeader
  env := env

/-- With a cached validator an array is refused and an object is sent. -/
theorem failures_contained_required : ∃ s, (validations types decode).run (.empty types) made = some s ∧
    (∃ err, (callOperation { input := inputs decode s, output := fun _ _ _ => none } (.whatwg host)
      client.config (invocation (.array [])) auth).executed = stopped (.mcpify err) false auth) ∧
    (callOperation { input := inputs decode s, output := fun _ _ _ => none } (.whatwg host)
      client.config (invocation (args "42")) auth).executed.dispatched.isSome ∧
    types.isValid (freshValidator types decode OperationSchemas.inputSchema
      ("general-1.2.0", "getIncident")) (args "42") = true := by
  have hversion : ∀ v ∈ made, v.apiVersion = client.config.apiVersion := by
    intro v hv
    rw [List.mem_singleton.mp hv]
    rfl
  have hrun : (validations types decode).run (.empty types) made = some _ := rfl
  obtain ⟨hrefused, -, -, -⟩ := failures_contained hversion hrun (fun _ _ _ => none) (.whatwg host)
    (invocation (.array [])) auth
  obtain ⟨-, -, hsent, -⟩ := failures_contained hversion hrun (fun _ _ _ => none) (.whatwg host)
    (invocation (args "42")) auth
  exact ⟨_, rfl, ⟨_, hrefused _ rfl⟩, rfl, (hsent (.inl rfl)).1⟩

end Required

end TopdeskMcp.Theorems.Stages
