import TopdeskMcp.Validation.Validator
import Mathlib.Data.List.Induction

/-!
# Cached and fresh validation

A validator is cached under version and operation with a space between them, and the version and
the operation may have spaces of their own. So a call is validated with the schema of the first
operation that was validated under its key (`Filled`), and the verdict is the one of a validator
compiled from scratch as long as the two schemas agree about the data (`cached_eq_fresh_iff`).
-/

namespace TopdeskMcp.Theorems.Verdicts

open Validator Trace.Lts

def operation (v : Validation) : String × String := (v.apiVersion, v.operationId)

def schemaOn : Side → OperationSchemas → Json.Value
  | .input => OperationSchemas.inputSchema
  | .output => OperationSchemas.outputSchema

def cacheOn {J : JsonSchema} (s : Caches J) : Side → AList fun _ : String => J.Validator
  | .input => s.input
  | .output => s.output

section

variable (J : JsonSchema) (decode : String → Option SchemaMap)

/-- The validator for a call, compiled from the schema of its own operation. -/
def scratch (v : Validation) : J.Validator := freshValidator J decode (schemaOn v.side) (operation v)

end

/-- The first of these calls that uses the cache entry of a call. -/
def firstUser (before : List Validation) (v : Validation) : Option Validation :=
  before.find? fun u => u.side = v.side ∧ keyOf (operation u) = keyOf (operation v)

section

variable {J : JsonSchema} {decode : String → Option SchemaMap} {s : Caches J}
  {before made : List Validation} {v : Validation}

/-! ## One call -/

theorem check_eq_ok_iff {validator : J.Validator} {data : Json.Value} :
    check J validator data = .ok () ↔ J.isValid validator data := by
  unfold check
  split <;> simp_all

theorem mapError_eq_ok_iff {ε ε' : Type} {f : ε → ε'} {result : Except ε Unit} :
    result.mapError f = .ok () ↔ result = .ok () := by
  cases result <;> simp [Except.mapError]

/-- The statics hold the assets as they are, and under each key the validator of its first user. -/
structure Filled (decode : String → Option SchemaMap) (before : List Validation) (s : Caches J) :
    Prop where
  schemas : ∀ version cached, s.schemas.lookup version = some cached →
    cached = operationSchemas decode version
  validators : ∀ v, (cacheOn s v.side).lookup (keyOf (operation v)) =
    (firstUser before v).map (scratch J decode)

theorem filled_empty : Filled decode [] (.empty J) where
  schemas version cached h := by simp [Caches.empty] at h
  validators v := by
    cases hside : v.side <;> rfl

/-- Both sides look up the schema in the same way, and each has a cache of its own. -/
theorem validate_eq (decode : String → Option SchemaMap) (s : Caches J) (v : Validation) :
    let validated := validateAgainst J (cacheOn s v.side) (keyOf (operation v)) (schemaOf
      (schemaOn v.side) (schemasByOperation decode s.schemas v.apiVersion).1 v.operationId) v.data
    (∃ f, (validate decode s v).1 = validated.1.mapError f) ∧
      ∀ side, cacheOn (validate decode s v).2 side =
        if side = v.side then validated.2 else cacheOn s side := by
  obtain ⟨side, apiVersion, operationId, data⟩ := v
  cases side with
  | input => exact ⟨⟨_, rfl⟩, fun side => by cases side <;> rfl⟩
  | output => exact ⟨⟨_, rfl⟩, fun side => by cases side <;> rfl⟩

/-- What a call is validated with, and what it leaves in the caches. -/
theorem validate_spec (h : ∀ version cached, s.schemas.lookup version = some cached →
      cached = operationSchemas decode version) (v : Validation) :
    let used := ((cacheOn s v.side).lookup (keyOf (operation v))).getD (scratch J decode v)
    ((validate decode s v).1 = .ok () ↔ J.isValid used v.data) ∧
      ∀ side key, (cacheOn (validate decode s v).2 side).lookup key =
        if side = v.side ∧ key = keyOf (operation v) then some used
        else (cacheOn s side).lookup key := by
  obtain ⟨⟨f, hverdict⟩, hcaches⟩ := validate_eq decode s v
  obtain ⟨hvalue, hlookup⟩ := Memo.getOrInsert_spec (cacheOn s v.side) (keyOf (operation v))
    (scratch J decode v)
  rw [(schemasByOperation_eq h v.apiVersion).1] at hverdict
  constructor
  · rw [hverdict, mapError_eq_ok_iff, ← hvalue]
    exact check_eq_ok_iff
  · intro side key
    rw [hcaches, (schemasByOperation_eq h v.apiVersion).1]
    by_cases hside : side = v.side
    · rw [if_pos hside, hside]
      exact (hlookup key).trans (if_congr (by simp) rfl rfl)
    · rw [if_neg hside, if_neg fun h => hside h.1]

theorem schemas_validate (h : ∀ version cached, s.schemas.lookup version = some cached →
      cached = operationSchemas decode version) (v : Validation) :
    ∀ version cached, (validate decode s v).2.schemas.lookup version = some cached →
      cached = operationSchemas decode version := by
  obtain ⟨side, apiVersion, operationId, data⟩ := v
  cases side <;> exact (schemasByOperation_eq h apiVersion).2

theorem firstUser_concat (before : List Validation) (u v : Validation) :
    firstUser (before ++ [u]) v = (firstUser before v).or
      (if u.side = v.side ∧ keyOf (operation u) = keyOf (operation v) then some u else none) := by
  unfold firstUser
  rw [List.find?_append, List.find?_singleton]
  simp

/-- A call validates with the validator of the first user of its key, which may be the call. -/
theorem Filled.step (h : Filled decode before s) (v : Validation) :
    ((validate decode s v).1 = .ok () ↔
      J.isValid (scratch J decode ((firstUser before v).getD v)) v.data) ∧
    Filled decode (before ++ [v]) (validate decode s v).2 := by
  obtain ⟨hverdict, hcache⟩ := validate_spec h.schemas v
  have hused : ((cacheOn s v.side).lookup (keyOf (operation v))).getD (scratch J decode v) =
      scratch J decode ((firstUser before v).getD v) := by
    rw [h.validators]
    cases firstUser before v <;> rfl
  refine ⟨by rw [hverdict, hused], schemas_validate h.schemas v, fun w => ?_⟩
  rw [hcache, hused, firstUser_concat, h.validators]
  by_cases hsame : w.side = v.side ∧ keyOf (operation w) = keyOf (operation v)
  · have hfirst : firstUser before w = firstUser before v := by
      unfold firstUser
      rw [hsame.1, hsame.2]
    rw [if_pos hsame, if_pos ⟨hsame.1.symm, hsame.2.symm⟩, hfirst]
    cases firstUser before v <;> rfl
  · rw [if_neg hsame, if_neg fun h => hsame ⟨h.1.symm, h.2.symm⟩, Option.or_none]

/-! ## Calls one after another -/

theorem exists_run (J : JsonSchema) (decode : String → Option SchemaMap)
    (before : List Validation) : ∃ s : Caches J,
    (validations J decode).run (.empty J) before = some s ∧ Filled decode before s := by
  induction before using List.reverseRecOn with
  | nil => exact ⟨_, rfl, filled_empty⟩
  | append_singleton before v ih =>
      obtain ⟨s, hrun, hfilled⟩ := ih
      exact ⟨_, run_append_eq_some.mpr ⟨s, hrun, rfl⟩, (hfilled.step v).2⟩

/-- The verdicts are those of validators compiled from scratch. -/
def Coherent (J : JsonSchema) (decode : String → Option SchemaMap) (made : List Validation) :
    Prop :=
  ∀ before v after s, made = before ++ v :: after →
    (validations J decode).run (.empty J) before = some s →
    ((validate decode s v).1 = .ok () ↔ J.isValid (scratch J decode v) v.data)

theorem coherent_of (h : ∀ before v after u, made = before ++ v :: after →
      firstUser before v = some u →
      J.isValid (scratch J decode u) v.data = J.isValid (scratch J decode v) v.data) :
    Coherent J decode made := by
  intro before v after s hmade hrun
  obtain ⟨s', hrun', hfilled⟩ := exists_run J decode before
  obtain rfl : s' = s := Option.some.inj (hrun'.symm.trans hrun)
  rw [(hfilled.step v).1]
  cases hfirst : firstUser before v with
  | none => rfl
  | some u => rw [Option.getD_some, h before v after u hmade hfirst]

/-- **Cached and fresh validation.** All verdicts of a sequence of calls are fresh if and only if
no call comes after the first user of its key that has another verdict about its data. -/
theorem cached_eq_fresh_iff (J : JsonSchema) (decode : String → Option SchemaMap)
    (made : List Validation) :
    Coherent J decode made ↔
      ∀ before v after u, made = before ++ v :: after → firstUser before v = some u →
        J.isValid (scratch J decode u) v.data = J.isValid (scratch J decode v) v.data := by
  refine ⟨fun h before v after u hmade hfirst => ?_, coherent_of⟩
  obtain ⟨s, hrun, hfilled⟩ := exists_run J decode before
  have hverdict := (hfilled.step v).1
  rw [h before v after s hmade hrun, hfirst, Option.getD_some] at hverdict
  rw [Bool.eq_iff_iff]
  exact hverdict.symm

/-! ## Versions without a space -/

/-- The version is what comes before the first space of the key. -/
theorem takeWhile_keyOf {a : String × String} (h : ' ' ∉ a.1.toList) :
    (keyOf a).toList.takeWhile (· != ' ') = a.1.toList := by
  have hall : ∀ c ∈ a.1.toList, (c != ' ') = true := by
    intro c hc
    simpa using fun heq : c = ' ' => h (heq ▸ hc)
  rw [keyOf, cacheKey, String.toList_append, String.toList_append, List.append_assoc,
    List.takeWhile_append_of_pos hall]
  exact List.append_nil _

theorem keyOf_inj {a b : String × String} (ha : ' ' ∉ a.1.toList) (hb : ' ' ∉ b.1.toList)
    (h : keyOf a = keyOf b) : a = b := by
  have hversion : a.1 = b.1 := by
    rw [← String.toList_inj, ← takeWhile_keyOf ha, ← takeWhile_keyOf hb, h]
  have hoperation : a.2 = b.2 := by
    have hchars := congrArg String.toList h
    simp only [keyOf, cacheKey, String.toList_append, hversion, List.append_cancel_left_eq] at hchars
    exact String.toList_inj.mp hchars
  exact Prod.ext hversion hoperation

/-- Calls for versions like those there are, whose names have no space, are validated afresh. -/
theorem coherent_of_no_space (h : ∀ v ∈ made, ' ' ∉ v.apiVersion.toList) :
    Coherent J decode made := by
  refine coherent_of fun before v after u hmade hfirst => ?_
  have hu : u ∈ before := List.mem_of_find?_eq_some hfirst
  obtain ⟨hside, hkey⟩ : u.side = v.side ∧ keyOf (operation u) = keyOf (operation v) := by
    simpa using List.find?_some hfirst
  have hoperation : operation u = operation v :=
    keyOf_inj (h u (by simp [hmade, hu])) (h v (by simp [hmade])) hkey
  rw [scratch, scratch, hside, hoperation]

end

/-! ## One operation, two keys -/

namespace Emails

/-- Compiles the empty schema and schemas that list required members. -/
def required : JsonSchema where
  Validator := List String
  validatorFor schema := match schema with
    | .object [] => some []
    | .object members => ((members.lookup "required").bind Json.Value.asArray).map
        fun names => names.filterMap Json.Value.asStr
    | _ => none
  isValid names data := names.all fun name => (data.get name).isSome
  iterErrors names _ := names.map fun name => "\"" ++ name ++ "\" is a required property"
  empty := []
  validatorFor_empty := rfl

def decode (file : String) : Option SchemaMap :=
  if file = "generated_schemas.json.zst" then
    some ((∅ : SchemaMap).insert "GET /emails/id/\x7bid\x7d"
      { inputSchema := .object [("type", .string "object"),
          ("properties", .object [("id", .object [("type", .string "string"),
            ("format", .string "uuid")])]),
          ("required", .array [.string "id"])]
        outputSchema := .object [] })
  else none

/-- The version and the operation, and where else the space between them may go. -/
def made : List Validation :=
  [⟨.input, "general-1.2.0 GET", "/emails/id/\x7bid\x7d", .object []⟩,
   ⟨.input, "general-1.2.0", "GET /emails/id/\x7bid\x7d", .object []⟩]

/-- The second call is accepted without the identifier that its operation requires. -/
theorem cached_eq_fresh_fails : ¬ Coherent required decode made := by
  intro h
  obtain ⟨s, hrun, hverdict⟩ : ∃ s, (validations required decode).run (.empty required)
      [made[0]] = some s ∧ (validate decode s made[1]).1 = .ok () := ⟨_, rfl, by decide⟩
  have hvalid := (h [made[0]] made[1] [] s rfl hrun).mp hverdict
  revert hvalid
  decide

end Emails

end TopdeskMcp.Theorems.Verdicts
