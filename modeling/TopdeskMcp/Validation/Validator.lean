import TopdeskMcp.Lib.Memo
import TopdeskMcp.Lib.Trace
import TopdeskMcp.Tools.CallTool

/-!
# The validator (`validation/validator.rs`)

Every release embeds the schemas of its API versions, one compressed asset a version. An
asset is parsed the first time its version is asked for, and a schema is compiled the first
time its operation is; what was parsed and compiled is kept in statics, so that it outlives
the call (`Caches`).

The `jsonschema` crate is the parameter `JsonSchema`, and reading an asset the parameter
`decode`. `inputs` are the answers that a call gets; they are what `callOperation` has as
`Schemas.input`.
-/

namespace TopdeskMcp

/-- `jsonschema`: a schema compiles or does not, and the empty one does. -/
structure JsonSchema where
  Validator : Type
  validatorFor : Json.Value → Option Validator
  isValid : Validator → Json.Value → Bool
  iterErrors : Validator → Json.Value → List String
  empty : Validator
  validatorFor_empty : validatorFor (.object []) = some empty

namespace Validator

structure OperationSchemas where
  inputSchema : Json.Value
  outputSchema : Json.Value

/-- The schemas of one version, by operation. -/
abbrev SchemaMap := AList fun _ : String => OperationSchemas

/-- The API versions with the files of their assets. -/
def schemaFiles : List (String × String) :=
  [("general-1.2.0", "generated_schemas.json.zst"),
   ("incident-4.2.6", "generated_schemas_vincident-4.2.6.json.zst"),
   ("knowledge-base-before-explorer-migration",
     "generated_schemas_vknowledge-base-before-explorer-migration.json.zst"),
   ("knowledge-base-after-explorer-migration",
     "generated_schemas_vknowledge-base-after-explorer-migration.json.zst"),
   ("knowledgebase-graphql-1.0.0", "generated_schemas_vknowledgebase-graphql-1.0.0.json.zst"),
   ("reservations-2.0.0", "generated_schemas_vreservations-2.0.0.json.zst"),
   ("services-1.3.7", "generated_schemas_vservices-1.3.7.json.zst"),
   ("change-1.4.0", "generated_schemas_vchange-1.4.0.json.zst"),
   ("assets-1.91.1", "generated_schemas_vassets-1.91.1.json.zst"),
   ("operations-management-1.10.0", "generated_schemas_voperations-management-1.10.0.json.zst"),
   ("visitors-2.0.0", "generated_schemas_vvisitors-2.0.0.json.zst"),
   ("supporting-files-2.7.11", "generated_schemas_vsupporting-files-2.7.11.json.zst"),
   ("access-roles-saas", "generated_schemas_vaccess-roles-saas.json.zst"),
   ("access-roles-va-release-1-2026", "generated_schemas_vaccess-roles-va-release-1-2026.json.zst"),
   ("lookandfeel-1.0.0", "generated_schemas_vlookandfeel-1.0.0.json.zst"),
   ("task-notifications-1.0.0", "generated_schemas_vtask-notifications-1.0.0.json.zst"),
   ("settings-1.1.0", "generated_schemas_vsettings-1.1.0.json.zst"),
   ("custom-action-support-saas", "generated_schemas_vcustom-action-support-saas.json.zst"),
   ("custom-action-support-va-release-1-2023-or-newer",
     "generated_schemas_vcustom-action-support-va-release-1-2023-or-newer.json.zst")]

def schemasZstFor (apiVersion : String) : Option String := schemaFiles.lookup apiVersion

/-- An asset that cannot be decompressed or parsed counts as one without operations. -/
def parsed (decode : String → Option SchemaMap) (file : String) : SchemaMap := (decode file).getD ∅

def schemasByOperation (decode : String → Option SchemaMap)
    (cache : AList fun _ : String => SchemaMap) (apiVersion : String) :
    SchemaMap × AList fun _ : String => SchemaMap :=
  match cache.lookup apiVersion with
  | some schemas => (schemas, cache)
  | none =>
      match schemasZstFor apiVersion with
      | none => (∅, cache)
      | some file => (parsed decode file, cache.insert apiVersion (parsed decode file))

/-- The schema of an operation; the empty one when there is none. -/
def schemaOf (side : OperationSchemas → Json.Value) (schemas : SchemaMap) (operationId : String) :
    Json.Value := ((schemas.lookup operationId).map side).getD (.object [])

def cacheKey (apiVersion operationId : String) : String := apiVersion ++ " " ++ operationId

variable (J : JsonSchema) (decode : String → Option SchemaMap)

/-- What a schema is compiled to; the empty one stands in for a schema that does not compile. -/
def compile (schema : Json.Value) : J.Validator := (J.validatorFor schema).getD J.empty

def check (validator : J.Validator) (data : Json.Value) : Except (List String) Unit :=
  if J.isValid validator data then .ok () else .error (J.iterErrors validator data)

def validateAgainst (cache : AList fun _ : String => J.Validator) (key : String)
    (schema data : Json.Value) : Except (List String) Unit × AList fun _ : String => J.Validator :=
  let entry := Memo.getOrInsert cache key (compile J schema)
  (check J entry.1 data, entry.2)

/-- The statics: the assets that were parsed, and the validators of each side. -/
structure Caches where
  schemas : AList fun _ : String => SchemaMap
  input : AList fun _ : String => J.Validator
  output : AList fun _ : String => J.Validator

def Caches.empty : Caches J := { schemas := ∅, input := ∅, output := ∅ }

variable {J}

def validateInput (s : Caches J) (apiVersion operationId : String) (data : Json.Value) :
    Except McpifyError Unit × Caches J :=
  let found := schemasByOperation decode s.schemas apiVersion
  let validated := validateAgainst J s.input (cacheKey apiVersion operationId)
    (schemaOf OperationSchemas.inputSchema found.1 operationId) data
  (validated.1.mapError (.validation s!"invalid input for '{operationId}'"),
    { s with schemas := found.2, input := validated.2 })

def validateOutput (s : Caches J) (apiVersion operationId : String) (data : Json.Value) :
    Except McpifyError Unit × Caches J :=
  let found := schemasByOperation decode s.schemas apiVersion
  let validated := validateAgainst J s.output (cacheKey apiVersion operationId)
    (schemaOf OperationSchemas.outputSchema found.1 operationId) data
  (validated.1.mapError (.validation s!"unexpected response shape for '{operationId}'"),
    { s with schemas := found.2, output := validated.2 })

/-- The violations that `validate_input` reports in this state. -/
def inputs (s : Caches J) (apiVersion operationId : String) (data : Json.Value) :
    Option (List String) :=
  match (validateAgainst J s.input (cacheKey apiVersion operationId) (schemaOf
    OperationSchemas.inputSchema (schemasByOperation decode s.schemas apiVersion).1 operationId)
    data).1 with
  | .ok () => none
  | .error errors => some errors

/-! ## Validations one after another -/

inductive Side where
  | input
  | output
  deriving DecidableEq

structure Validation where
  side : Side
  apiVersion : String
  operationId : String
  data : Json.Value

def validate (s : Caches J) (v : Validation) : Except McpifyError Unit × Caches J :=
  match v.side with
  | .input => validateInput decode s v.apiVersion v.operationId v.data
  | .output => validateOutput decode s v.apiVersion v.operationId v.data

variable (J) in
/-- The validations of a process: its caches are locked while one is made. -/
def validations : Trace.Lts (Caches J) Validation where
  init s := s = .empty J
  step s v := some (validate decode s v).2

/-! ### What does not depend on the caches -/

/-- The schemas of a version, read from its asset. -/
def operationSchemas (apiVersion : String) : SchemaMap :=
  ((schemasZstFor apiVersion).map (parsed decode)).getD ∅

variable (J) in
/-- The validator of an operation, compiled from its schema. -/
def freshValidator (side : OperationSchemas → Json.Value) (operation : String × String) :
    J.Validator :=
  compile J (schemaOf side (operationSchemas decode operation.1) operation.2)

def keyOf (operation : String × String) : String := cacheKey operation.1 operation.2

variable (J) in
/-- Operations that are cached under one key have the same validators. -/
structure Separate (Asked : String × String → Prop) : Prop where
  input : Memo.Compatible Asked keyOf (freshValidator J decode OperationSchemas.inputSchema)
  output : Memo.Compatible Asked keyOf (freshValidator J decode OperationSchemas.outputSchema)

/-- The caches hold what reading and compiling again would give for the operations that are
asked for. -/
structure Fresh (Asked : String × String → Prop) (s : Caches J) : Prop where
  schemas : ∀ version cached, s.schemas.lookup version = some cached →
    cached = operationSchemas decode version
  input : Memo.Sound Asked keyOf (freshValidator J decode OperationSchemas.inputSchema) s.input
  output : Memo.Sound Asked keyOf (freshValidator J decode OperationSchemas.outputSchema) s.output

variable {decode} {Asked : String × String → Prop} {s : Caches J} {apiVersion operationId : String}

theorem fresh_empty : Fresh decode Asked (.empty J) where
  schemas version cached h := by simp [Caches.empty] at h
  input := Memo.sound_empty
  output := Memo.sound_empty

/-- The assets are cached under their own versions. -/
theorem schemasByOperation_eq {cache : AList fun _ : String => SchemaMap}
    (h : ∀ version cached, cache.lookup version = some cached →
      cached = operationSchemas decode version) (apiVersion : String) :
    (schemasByOperation decode cache apiVersion).1 = operationSchemas decode apiVersion ∧
      ∀ version cached, (schemasByOperation decode cache apiVersion).2.lookup version =
        some cached → cached = operationSchemas decode version := by
  unfold schemasByOperation
  cases hlookup : cache.lookup apiVersion with
  | some schemas => exact ⟨h apiVersion schemas hlookup, h⟩
  | none =>
      cases hfile : schemasZstFor apiVersion with
      | none => exact ⟨by simp [operationSchemas, hfile], h⟩
      | some file =>
          refine ⟨by simp [operationSchemas, hfile], ?_⟩
          intro version cached hcached
          by_cases heq : version = apiVersion
          · subst heq
            rw [AList.lookup_insert] at hcached
            rw [← Option.some.inj hcached]
            simp [operationSchemas, hfile]
          · rw [AList.lookup_insert_ne heq] at hcached
            exact h version cached hcached

/-- With a sound cache a validation is made with the operation's own validator. -/
theorem validateAgainst_eq {side : OperationSchemas → Json.Value}
    {cache : AList fun _ : String => J.Validator}
    (h : Memo.Sound Asked keyOf (freshValidator J decode side) cache)
    (hkey : Memo.Compatible Asked keyOf (freshValidator J decode side))
    (hasked : Asked (apiVersion, operationId)) (data : Json.Value) :
    let validated := validateAgainst J cache (cacheKey apiVersion operationId)
      (schemaOf side (operationSchemas decode apiVersion) operationId) data
    validated.1 = check J (freshValidator J decode side (apiVersion, operationId)) data ∧
      Memo.Sound Asked keyOf (freshValidator J decode side) validated.2 := by
  obtain ⟨hvalue, hsound⟩ := h.getOrInsert hkey hasked
  exact ⟨congrArg (check J · data) hvalue, hsound⟩

/-- A validation keeps the caches fresh. -/
theorem Fresh.validate (h : Fresh decode Asked s) (hkey : Separate J decode Asked)
    {v : Validation} (hasked : Asked (v.apiVersion, v.operationId)) :
    Fresh decode Asked (Validator.validate decode s v).2 := by
  obtain ⟨hschemas, hcached⟩ := schemasByOperation_eq h.schemas v.apiVersion
  unfold Validator.validate
  cases v.side with
  | input =>
      have hsound := (validateAgainst_eq h.input hkey.input hasked v.data).2
      rw [← hschemas] at hsound
      exact ⟨hcached, hsound, h.output⟩
  | output =>
      have hsound := (validateAgainst_eq h.output hkey.output hasked v.data).2
      rw [← hschemas] at hsound
      exact ⟨hcached, h.input, hsound⟩

/-- In one version every operation has a key of its own. -/
theorem separate_of_version (apiVersion : String) :
    Separate J decode fun operation => operation.1 = apiVersion := by
  have hinj : ∀ a b : String × String, a.1 = apiVersion → b.1 = apiVersion → keyOf a = keyOf b →
      a = b := by
    rintro ⟨version, a⟩ ⟨version', b⟩ rfl rfl hkey
    have hchars := congrArg String.toList hkey
    simp only [keyOf, cacheKey, String.toList_append, List.append_cancel_left_eq] at hchars
    rw [String.toList_inj.mp hchars]
  constructor
  · intro a b ha hb hkey
    rw [hinj a b ha hb hkey]
  · intro a b ha hb hkey
    rw [hinj a b ha hb hkey]

/-- A process that validates for one version only has fresh caches. -/
theorem fresh_run {made : List Validation} (hversion : ∀ v ∈ made, v.apiVersion = apiVersion)
    (hrun : (validations J decode).run (.empty J) made = some s) :
    Fresh decode (fun operation => operation.1 = apiVersion) s := by
  have hinductive : (validations J decode).Inductive (fun _ v => v.apiVersion = apiVersion)
      (Fresh decode fun operation => operation.1 = apiVersion) := by
    intro s v s' hfresh hv hstep
    rw [← Option.some.inj hstep]
    exact hfresh.validate (separate_of_version apiVersion) hv
  exact hinductive.run fresh_empty (Trace.Lts.along_of_forall_mem fun v hv _ => hversion v hv) hrun

/-- With fresh caches, what is accepted is valid. -/
theorem Fresh.inputs_eq_none_iff (h : Fresh decode Asked s) (hkey : Separate J decode Asked)
    (hasked : Asked (apiVersion, operationId)) (data : Json.Value) :
    inputs decode s apiVersion operationId data = none ↔
      J.isValid (freshValidator J decode OperationSchemas.inputSchema (apiVersion, operationId))
        data = true := by
  unfold inputs
  rw [(schemasByOperation_eq h.schemas apiVersion).1,
    (validateAgainst_eq h.input hkey.input hasked data).1]
  unfold check
  cases J.isValid (freshValidator J decode OperationSchemas.inputSchema (apiVersion, operationId))
    data <;> simp

/-- `call_operation` validates as `validate_input` does. -/
theorem validateInput_inputs (decode : String → Option SchemaMap) (s : Caches J)
    (output : String → String → Json.Value → Option (List String))
    (apiVersion operationId : String) (data : Json.Value) :
    TopdeskMcp.validateInput { input := inputs decode s, output } apiVersion operationId data =
      (validateInput decode s apiVersion operationId data).1 := by
  unfold TopdeskMcp.validateInput validateInput inputs
  dsimp only
  generalize (validateAgainst J s.input (cacheKey apiVersion operationId) (schemaOf
    OperationSchemas.inputSchema (schemasByOperation decode s.schemas apiVersion).1 operationId)
    data).1 = checked
  cases checked <;> rfl

end Validator

end TopdeskMcp
