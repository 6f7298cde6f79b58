import TopdeskMcp.Lib.Form
import TopdeskMcp.Theorems.Templates

/-!
# The arguments that reach the wire

A call takes its arguments apart four times: for the placeholders of the path, for the query,
for the headers and for the body. Each time it looks up names that the endpoint declares and
no others, so calls that agree on these names are executed alike (`execute_congr`); and the
query gets one pair for each declared parameter that is given (`Picks`).
-/

namespace TopdeskMcp.Theorems.Arguments

open TopdeskMcp Paths Templates Whatwg

/-- A parameter of the schema is declared with this location and this name. -/
structure Declares (param : Json.Value) (location name : String) : Prop where
  place : param.get "in" = some (.string location)
  name : param.get "name" = some (.string name)

/-- A name that the path, the query, the headers or the body of a call may depend on. -/
def Relevant (endpoint : EndpointRecord) (name : String) : Prop :=
  (∃ text, Part.placeholder text ∈ template endpoint ∧ name = String.ofList text) ∨
    (∃ param ∈ parametersOf endpoint, Declares param "query" name ∨ Declares param "header" name) ∨
    name = "body"

def AgreeOn (endpoint : EndpointRecord) (args args' : Args) : Prop :=
  ∀ name, Relevant endpoint name → args.lookup name = args'.lookup name

/-- The pairs that are picked for a location: one for each parameter that is declared with the
location and given, in the order of the declarations. -/
inductive Picks (args : Args) (location : String) : List Json.Value → List (String × String) → Prop
  | nil : Picks args location [] []
  | other {param params pairs} (h : ∀ name, ¬ Declares param location name)
      (rest : Picks args location params pairs) : Picks args location (param :: params) pairs
  | missing {param params pairs name} (h : Declares param location name)
      (hnone : args.lookup name = none) (rest : Picks args location params pairs) :
      Picks args location (param :: params) pairs
  | given {param params pairs name value} (h : Declares param location name)
      (hvalue : args.lookup name = some value) (rest : Picks args location params pairs) :
      Picks args location (param :: params) ((name, valueToPlainString value) :: pairs)

section

variable {U : UrlCrate} {client : ApiClient} {endpoint : EndpointRecord} {args args' : Args}
  {location : String}

/-! ## Declarations -/

theorem asStr_bind_eq_some {value : Option Json.Value} {text : String} :
    value.bind Json.Value.asStr = some text ↔ value = some (.string text) := by
  constructor
  · intro h
    obtain ⟨found, rfl, hstr⟩ := Option.bind_eq_some_iff.mp h
    rw [Json.Value.asStr_eq_some hstr]
  · intro h
    rw [h]
    rfl

/-- A name is picked for a location only if it is declared with it. -/
theorem declares_of_mem {name : String} (h : name ∈ namesWithLocation endpoint location) :
    ∃ param ∈ parametersOf endpoint, Declares param location name := by
  obtain ⟨param, hmem, hname⟩ := List.mem_filterMap.mp h
  obtain ⟨hparam, hplace⟩ := List.mem_filter.mp hmem
  exact ⟨param, hparam, asStr_bind_eq_some.mp (by simpa using hplace),
    asStr_bind_eq_some.mp hname⟩

/-- What is picked is picked declaration by declaration. -/
theorem picks_pickByLocation (endpoint : EndpointRecord) (args : Args) (location : String) :
    Picks args location (parametersOf endpoint) (pickByLocation endpoint args location) := by
  unfold pickByLocation namesWithLocation
  induction parametersOf endpoint with
  | nil => exact .nil
  | cons param params ih =>
      by_cases hplace : (param.get "in").bind Json.Value.asStr = some location
      · rw [List.filter_cons_of_pos (by simpa using hplace)]
        cases hname : (param.get "name").bind Json.Value.asStr with
        | none =>
            simp only [List.filterMap_cons, hname]
            refine .other ?_ ih
            intro name h
            rw [h.name] at hname
            simp [Json.Value.asStr] at hname
        | some name =>
            have hdeclares : Declares param location name :=
              ⟨asStr_bind_eq_some.mp hplace, asStr_bind_eq_some.mp hname⟩
            simp only [List.filterMap_cons, hname]
            cases hvalue : args.lookup name with
            | none =>
                simp only [Option.map_none]
                exact .missing hdeclares hvalue ih
            | some value =>
                simp only [Option.map_some]
                exact .given hdeclares hvalue ih
      · rw [List.filter_cons_of_neg (by simpa using hplace)]
        refine .other ?_ ih
        intro name h
        exact hplace (asStr_bind_eq_some.mpr h.place)

/-! ## Calls that agree on what is declared -/

theorem pickByLocation_congr (h : ∀ name ∈ namesWithLocation endpoint location,
    args.lookup name = args'.lookup name) :
    pickByLocation endpoint args location = pickByLocation endpoint args' location := by
  unfold pickByLocation
  refine List.filterMap_congr ?_
  intro name hname
  rw [h name hname]

theorem applyPathParams_congr (h : ∀ text, Part.placeholder text ∈ template endpoint →
    args.lookup (String.ofList text) = args'.lookup (String.ofList text)) :
    applyPathParams endpoint args = applyPathParams endpoint args' := by
  rw [applyPathParams_eq_flatMap, applyPathParams_eq_flatMap]
  refine List.flatMap_congr ?_
  intro part hpart
  cases part with
  | literal text => rfl
  | placeholder text =>
      show encodeArg (plainArg args (String.ofList text)) = _
      rw [plainArg, h text hpart]
      rfl

theorem prepare_congr (h : AgreeOn endpoint args args') (config : Config)
    (requestOverride : Option RequestCredentials) (env : AuthEnv) (auth : AuthState) :
    ApiClient.prepare U config endpoint args requestOverride env auth =
      ApiClient.prepare U config endpoint args' requestOverride env auth := by
  have hpath := applyPathParams_congr fun text hmem =>
    h (String.ofList text) (.inl ⟨text, hmem, rfl⟩)
  have hquery : pickByLocation endpoint args "query" = pickByLocation endpoint args' "query" := by
    refine pickByLocation_congr ?_
    intro name hname
    obtain ⟨param, hmem, hdeclares⟩ := declares_of_mem hname
    exact h name (.inr (.inl ⟨param, hmem, .inl hdeclares⟩))
  have hheader : pickByLocation endpoint args "header" =
      pickByLocation endpoint args' "header" := by
    refine pickByLocation_congr ?_
    intro name hname
    obtain ⟨param, hmem, hdeclares⟩ := declares_of_mem hname
    exact h name (.inr (.inl ⟨param, hmem, .inr hdeclares⟩))
  have hbody : args.lookup "body" = args'.lookup "body" := h "body" (.inr (.inr rfl))
  unfold ApiClient.prepare ApiClient.callUrl ApiClient.callHeaders
  rw [hpath, hquery, hheader, hbody]

/-- Calls that agree on the relevant names are executed alike, to the end. -/
theorem execute_congr {args args' : Json.Value} (h : AgreeOn endpoint (argsMap args) (argsMap args'))
    (requestOverride : Option RequestCredentials) (env : CallEnv) (auth : AuthState) :
    client.execute U endpoint args requestOverride env auth =
      client.execute U endpoint args' requestOverride env auth := by
  unfold ApiClient.execute
  simp only [prepare_congr h]

/-! ## The query -/

/-- The address without its query is where the path leads from the base. -/
def joined (U : UrlCrate) (config : Config) (endpoint : EndpointRecord) (args : Args) :
    Option U.Url :=
  (U.parse (withSlash config.url.toList)).bind fun base =>
    U.join base (trimSlashes (applyPathParams endpoint args))

theorem callUrl_eq (U : UrlCrate) (config : Config) (endpoint : EndpointRecord) (args : Args) :
    ApiClient.callUrl U config endpoint args = (joined U config endpoint args).map fun url =>
      U.toStr ((pickByLocation endpoint args "query").foldl
        (fun url pair => U.appendPair url pair.1 pair.2) url) := by
  unfold ApiClient.callUrl buildApiUrl resolveApiUrl joined
  cases U.parse (withSlash config.url.toList) with
  | none => rfl
  | some base =>
      rw [Option.bind_some]
      show ((U.join base (trimSlashes (applyPathParams endpoint args))).bind _).map _ = _
      cases U.join base (trimSlashes (applyPathParams endpoint args)) with
      | none => rfl
      | some url => rfl

theorem sent_url {args : Json.Value} {requestOverride : Option RequestCredentials} {env : CallEnv}
    {auth : AuthState} {request : Request}
    (h : (client.execute U endpoint args requestOverride env auth).1.dispatched = some request) :
    ∃ url, joined U client.config endpoint (argsMap args) = some url ∧
      request.url = U.toStr ((pickByLocation endpoint (argsMap args) "query").foldl
        (fun url pair => U.appendPair url pair.1 pair.2) url) := by
  obtain ⟨text, headers, hurl, -, rfl⟩ := ApiClient.prepare_eq_ok (ApiClient.execute_dispatched h)
  rw [callUrl_eq] at hurl
  obtain ⟨url, hjoined, htext⟩ := Option.map_eq_some_iff.mp hurl
  exact ⟨url, hjoined, htext.symm⟩

/-- **Only declared arguments reach the wire.** Calls whose arguments agree on the placeholders of
the path, on the names declared for the query and the headers and on the body are executed
alike. A request's address is where its path leads with the declared and given query parameters
appended, one for each declaration and in their order; with the crate as the standard has it,
these are the pairs that a reader of the query finds after those of the path. -/
theorem declared_only (client : ApiClient) (endpoint : EndpointRecord) (args args' : Json.Value)
    (h : AgreeOn endpoint (argsMap args) (argsMap args'))
    (requestOverride : Option RequestCredentials) (env : CallEnv) (auth : AuthState) :
    (∀ U : UrlCrate, client.execute U endpoint args requestOverride env auth =
      client.execute U endpoint args' requestOverride env auth) ∧
    ∃ pairs, Picks (argsMap args) "query" (parametersOf endpoint) pairs ∧
      (∀ (U : UrlCrate) (request : Request),
        (client.execute U endpoint args requestOverride env auth).1.dispatched = some request →
        ∃ url, joined U client.config endpoint (argsMap args) = some url ∧
          request.url = U.toStr (pairs.foldl
            (fun url pair => U.appendPair url pair.1 pair.2) url)) ∧
      ∀ (H : Host) (request : Request) (url : Url),
        (client.execute (.whatwg H) endpoint args requestOverride env auth).1.dispatched =
          some request →
        joined (.whatwg H) client.config endpoint (argsMap args) = some (.web url) →
        ∃ query, request.url = ({ url with query } : Url).toChars ∧
          ({ url with query } : Url).pairs =
            url.pairs ++ pairs.map fun pair => (Utf8.encode pair.1, Utf8.encode pair.2) := by
  refine ⟨fun U => execute_congr h requestOverride env auth, _,
    picks_pickByLocation endpoint (argsMap args) "query", fun U request hsent => sent_url hsent, ?_⟩
  intro H request url hsent hweb
  obtain ⟨url', hjoined, htext⟩ := sent_url hsent
  obtain rfl : url' = .web url := Option.some.inj (hjoined.symm.trans hweb)
  obtain ⟨query, hfold, hpairs⟩ :=
    pairs_appendPairs H url (pickByLocation endpoint (argsMap args) "query")
  refine ⟨query, ?_, hpairs⟩
  rw [htext]
  exact congrArg Href.toChars hfold

end

namespace Incident

open Paths.Incident

/-- A placeholder and one parameter of the query. -/
def withQuery : EndpointRecord where
  path := "/incidents/\x7bid\x7d"
  method := "GET"
  inputSchema := .object [("parameters", .array [.object
    [("in", .string "query"), ("name", .string "fields")]])]

def given (more : Args) : Json.Value :=
  .object ([("id", .string "42"), ("fields", .string "id,name")] ++ more)

theorem agreeOn_given (value : Json.Value) : AgreeOn withQuery (argsMap (given []))
    (argsMap (given [("page", value)])) := by
  intro name hrelevant
  have hpage : name ≠ "page" := by
    rintro rfl
    rcases hrelevant with ⟨text, hmem, heq⟩ | ⟨param, hmem, hdeclares⟩ | hbody
    · have htext : text = "id".toList := by
        simpa [Templates.template, parts, withQuery] using hmem
      subst htext
      exact absurd heq (by decide)
    · obtain rfl : param = _ := List.mem_singleton.mp hmem
      cases hdeclares with
      | inl h => exact absurd (Json.Value.string.inj (Option.some.inj h.name)) (by decide)
      | inr h => exact absurd (Json.Value.string.inj (Option.some.inj h.name)) (by decide)
    · exact absurd hbody (by decide)
  have hnone : List.lookup name [("page", value)] = none := by
    rw [List.lookup_cons, beq_false_of_ne hpage]
    rfl
  show List.lookup name (_ ++ []) = List.lookup name (_ ++ [("page", value)])
  rw [List.lookup_append, List.lookup_append, hnone]
  rfl

/-- An argument that is not declared leaves no trace. -/
theorem declared_only_incident : ∃ request,
    (client.execute (.whatwg host) withQuery (given [("page", .string "3")]) (some basicHeader) env
      auth).1.dispatched = some request ∧
    request.url = "https://desk.example/api/incidents/42?fields=id%2Cname".toList := by
  have hsame := (declared_only client withQuery (given []) (given [("page", .string "3")])
    (agreeOn_given (.string "3")) (some basicHeader) env auth).1 (.whatwg host)
  rw [← hsame]
  exact ⟨_, rfl, rfl⟩

end Incident

end TopdeskMcp.Theorems.Arguments
