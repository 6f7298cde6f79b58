import TopdeskMcp.Main

/-!
# The configuration cascade

What is deserialized binds a key to its value in the first layer that has the key. `http` gives
no flags and sets variables, so nothing is above what it is given: it comes back from the text
of a variable as it was.
-/

namespace TopdeskMcp.Theorems.Cascade

open TopdeskMcp

/-- What the six layers are read from. -/
structure Sources where
  cliFlags : JsonMap
  env : StringMap
  machine : Machine
  files : TextFiles

section

variable (serde : Serde) (sources : Sources)

/-- The value of a key in the environment. -/
def envValue (env : StringMap) (key : String) : Option Json.Value :=
  (envSuffixes.lookup key).bind fun suffix =>
    (env.lookup (envVariable suffix)).map (parseEnvValue key)

/-- The value of a key in a file; a file that is missing, cannot be parsed or is no object has
no keys. -/
def fileValue (files : TextFiles) (path key : String) : Option Json.Value :=
  match (files path).bind serde.fromYaml with
  | some (.object members) => members.lookup key
  | _ => none

/-- What a key is in each of the layers, the topmost first. -/
def values (key : String) : List (Option Json.Value) :=
  sources.cliFlags.lookup key :: envValue sources.env key ::
    sources.machine.configFiles.map fun path => fileValue serde sources.files path key

def merged : JsonMap :=
  mergeLayers (sources.cliFlags :: envOverrides sources.env ::
    sources.machine.configFiles.map (readYamlIfExists serde sources.files))

/-- `serde_json::from_value`. -/
def deserialize (map : JsonMap) : Except McpifyError Config :=
  match Config.fromMap map with
  | some config => .ok config
  | none => .error (.configuration ("invalid configuration: " ++ serde.fromValueError map))

/-- The first match. -/
structure Cascades : Prop where
  loads : loadConfig serde sources.machine sources.cliFlags sources.env sources.files =
    deserialize serde (merged serde sources)
  lookup : ∀ key, (merged serde sources).lookup key = (values serde sources key).findSome? id
  /-- What is below a layer that has the key does not matter. -/
  below : ∀ key n, (∃ value ∈ (values serde sources key).take n, value.isSome) →
    ∀ sources' : Sources, (values serde sources' key).take n = (values serde sources key).take n →
      (merged serde sources').lookup key = (merged serde sources).lookup key

/-- What the command line gives. -/
structure Given where
  host : Option String
  port : Option UInt16
  corsAllow : Option String

def Given.command (given : Given) : Command :=
  .http given.host (given.port.map UInt16.toNat) given.corsAllow

/-- The configuration is what is given. -/
structure Given.Kept (given : Given) (config : Config) : Prop where
  transport : config.transport = .http
  host : ∀ host ∈ given.host, config.host = host
  port : ∀ port ∈ given.port, config.port = port
  corsAllow : ∀ corsAllow ∈ given.corsAllow, config.corsAllow = some corsAllow

/-! ## The first match -/

variable {serde sources}

theorem lookup_readYamlIfExists (files : TextFiles) (path key : String) :
    (readYamlIfExists serde files path).lookup key = fileValue serde files path key := by
  unfold readYamlIfExists fileValue
  cases (files path).bind serde.fromYaml with
  | none => exact AList.lookup_empty key
  | some value =>
      cases value with
      | object members => exact (AList.lookup_to_alist ..).trans (dlookup_members members key)
      | _ => exact AList.lookup_empty key

theorem lookup_merged (key : String) :
    (merged serde sources).lookup key = (values serde sources key).findSome? id := by
  have hvalues : values serde sources key =
      (sources.cliFlags :: envOverrides sources.env ::
        sources.machine.configFiles.map (readYamlIfExists serde sources.files)).map
          (·.lookup key) := by
    rw [List.map_cons, List.map_cons, List.map_map, lookup_envOverrides, values]
    refine congrArg (List.cons _ <| List.cons _ ·) ?_
    exact List.map_congr_left fun path _ => (lookup_readYamlIfExists sources.files path key).symm
  rw [merged, lookup_mergeLayers, hvalues, List.findSome?_map]
  rfl

theorem findSome?_eq_take {α : Type} {items : List (Option α)} {n : Nat}
    (h : ∃ item ∈ items.take n, item.isSome) :
    items.findSome? id = (items.take n).findSome? id := by
  obtain ⟨item, hitem, hsome⟩ := h
  have hisSome : ((items.take n).findSome? id).isSome :=
    List.findSome?_isSome_iff.mpr ⟨item, hitem, hsome⟩
  obtain ⟨found, hfound⟩ := Option.isSome_iff_exists.mp hisSome
  calc items.findSome? id
    _ = (items.take n ++ items.drop n).findSome? id := by rw [List.take_append_drop]
    _ = (items.take n).findSome? id := by rw [List.findSome?_append, hfound, Option.some_or]

theorem cascades (serde : Serde) (sources : Sources) : Cascades serde sources where
  loads := rfl
  lookup := lookup_merged
  below key n h sources' hsame := by
    rw [lookup_merged, lookup_merged, findSome?_eq_take h, ← hsame]
    rw [← hsame] at h
    exact findSome?_eq_take h

end

/-! ## What `http` is given -/

/-- Decimal digits are read as the number they are of. -/
theorem parseUnsigned_repr {n bound : Nat} (h : n < bound) :
    parseUnsigned bound n.repr = some n := by
  have hdigits : ∀ c ∈ Nat.toDigits 10 n, c.isDigit := fun c hc =>
    Nat.isDigit_of_mem_toDigits (by omega) (by omega) hc
  have hplus : ∀ rest, Nat.toDigits 10 n ≠ '+' :: rest := by
    intro rest heq
    have hdigit := hdigits '+' (by rw [heq]; exact List.mem_cons_self)
    simp at hdigit
  have hvalue : (Nat.toDigits 10 n).foldl (fun n c => n * 10 + (c.toNat - '0'.toNat)) 0 = n := by
    have hread := Nat.ofDigitChars_ten_toDigits (n := n)
    rw [Nat.ofDigitChars_eq_foldl] at hread
    simpa only [Nat.mul_comm] using hread
  have hall : ¬ (Nat.toDigits 10 n = [] ∨ (Nat.toDigits 10 n).any fun c => !c.isDigit) := by
    rintro (hnil | hany)
    · exact Nat.toDigits_ne_nil hnil
    · obtain ⟨c, hc, hnot⟩ := List.any_eq_true.mp hany
      simp [hdigits c hc] at hnot
  unfold parseUnsigned
  rw [Nat.toList_repr]
  split
  · rename_i rest heq
    exact absurd heq (hplus rest)
  · show (if _ then none else _) = _
    rw [if_neg hall, hvalue, if_pos h]

theorem lookup_setVar_ne {env : StringMap} {key name : String} {value : Option String}
    (h : key ≠ name) : (Command.setVar env name value).lookup key = env.lookup key := by
  cases value with
  | none => rfl
  | some value => exact AList.lookup_insert_ne h

theorem lookup_setVar {env : StringMap} {name value : String} :
    (Command.setVar env name (some value)).lookup name = some value :=
  AList.lookup_insert env

section

variable {serde : Serde} {machine : Machine} {env : StringMap} {files : TextFiles} {given : Given}
  {config : Config}

/-- Below no flags, a variable sets its key. -/
theorem lookup_of_variable (key : String) {suffix name text : String}
    (hsuffix : envSuffixes.lookup key = some suffix) (hname : envVariable suffix = name)
    (htext : env.lookup name = some text) :
    (merged serde ⟨∅, env, machine, files⟩).lookup key = some (parseEnvValue key text) := by
  have henv : envValue env key = some (parseEnvValue key text) := by
    rw [envValue, hsuffix, Option.bind_some, hname, htext, Option.map_some]
  rw [lookup_merged, values, AList.lookup_empty, henv]
  rfl

/-- The variables that are set when the configuration is loaded. -/
theorem environment_command (env : StringMap) (given : Given) :
    (given.command.environment env).lookup "TOPDESK_MCP_TRANSPORT" = some "http" ∧
      (∀ host ∈ given.host,
        (given.command.environment env).lookup "TOPDESK_MCP_HOST" = some host) ∧
      (∀ port ∈ given.port,
        (given.command.environment env).lookup "TOPDESK_MCP_PORT" = some port.toNat.repr) ∧
      ∀ corsAllow ∈ given.corsAllow,
        (given.command.environment env).lookup "TOPDESK_MCP_CORS_ALLOW" = some corsAllow := by
  obtain ⟨host, port, corsAllow⟩ := given
  simp only [Given.command, Command.environment]
  refine ⟨?_, ?_, ?_, ?_⟩
  · rw [lookup_setVar_ne (by decide), lookup_setVar_ne (by decide), lookup_setVar_ne (by decide)]
    exact AList.lookup_insert env
  · intro value hvalue
    rw [lookup_setVar_ne (by decide), lookup_setVar_ne (by decide), Option.mem_def.mp hvalue]
    exact lookup_setVar
  · intro value hvalue
    rw [lookup_setVar_ne (by decide), Option.mem_def.mp hvalue]
    exact lookup_setVar
  · intro value hvalue
    rw [Option.mem_def.mp hvalue]
    exact lookup_setVar

theorem fromMap_of_loaded
    (h : Command.loaded serde machine env files given.command = some (.ok config)) :
    Config.fromMap (merged serde ⟨∅, given.command.environment env, machine, files⟩) =
      some config := by
  have hload : deserialize serde
      (merged serde ⟨∅, given.command.environment env, machine, files⟩) = .ok config :=
    Option.some.inj h
  unfold deserialize at hload
  split at hload
  · rename_i config' hconfig'
    rw [hconfig', Except.ok.inj hload]
  · simp at hload

theorem readField_of_variable {α : Type} {map : JsonMap} {key text : String} {default : Option α}
    {read : Json.Value → Option α} (h : map.lookup key = some (parseEnvValue key text)) :
    readField map key default read = read (parseEnvValue key text) := by
  rw [readField, h]

theorem parseEnvValue_of_notMem {key text : String} (h : key ∉ numericKeys) :
    parseEnvValue key text = .string text := by
  rw [parseEnvValue, if_neg h]

/-- A port is a number in the map and read back from there. -/
theorem parseEnvValue_port (port : UInt16) :
    parseEnvValue "port" port.toNat.repr = .number port.toNat.repr := by
  have hlt : port.toNat < UInt64.size := Nat.lt_trans port.toNat_lt (by decide)
  rw [parseEnvValue, if_pos (by decide), parseUnsigned_repr hlt]

/-- Each option goes its own way through the environment. -/
theorem kept (h : Command.loaded serde machine env files given.command = some (.ok config)) :
    given.Kept config := by
  have hread := Config.isRead_of_fromMap (fromMap_of_loaded h)
  obtain ⟨htransport, hhost, hport, hcors⟩ := environment_command env given
  constructor
  · have hfield := hread.transport
    rw [readField_of_variable (lookup_of_variable "transport" rfl rfl htransport),
      parseEnvValue_of_notMem (by decide)] at hfield
    exact (Option.some.inj hfield).symm
  · intro host hgiven
    have hfield := hread.host
    rw [readField_of_variable (lookup_of_variable "host" rfl rfl (hhost host hgiven)),
      parseEnvValue_of_notMem (by decide)] at hfield
    exact (Option.some.inj hfield).symm
  · intro port hgiven
    obtain ⟨n, hfield, hconfig⟩ := hread.port
    rw [readField_of_variable (lookup_of_variable "port" rfl rfl (hport port hgiven)),
      parseEnvValue_port, readUnsigned, parseUnsigned_repr port.toNat_lt] at hfield
    rw [hconfig, ← Option.some.inj hfield]
    exact UInt16.ofNat_toNat
  · intro corsAllow hgiven
    have hfield := hread.corsAllow
    rw [readField_of_variable (lookup_of_variable "cors_allow" rfl rfl (hcors corsAllow hgiven)),
      parseEnvValue_of_notMem (by decide)] at hfield
    exact (Option.some.inj hfield).symm

end

/-- **The cascade.** The map that is deserialized binds each key to its first match, and a
configuration that `http` loads has what the command is given. -/
theorem cascade (serde : Serde) : (∀ sources, Cascades serde sources) ∧
    ∀ machine env files given config,
      Command.loaded serde machine env files (Given.command given) = some (.ok config) →
      given.Kept config :=
  ⟨cascades serde, fun _ _ _ _ _ h => kept h⟩

/-! ## A server on a port of its own -/

namespace Served

/-- Reads lines with a key, a colon, a space and a plain text. -/
def serde : Serde where
  toYaml _ := none
  fromYaml text := some (.object ((text.splitOn '\n').map fun line =>
    (String.ofList (line.takeWhile (· != ':')),
      .string (String.ofList ((line.dropWhile (· != ':')).drop 2)))))
  fromValueError _ := "missing field"

def env : StringMap :=
  ((∅ : StringMap).insert "TOPDESK_MCP_PORT" "3001").insert "TOPDESK_MCP_AUTH_METHOD" "basic"

/-- The local file has the address, and a host that is not used. -/
def files : TextFiles := fun path =>
  if path = "/srv/desk/topdesk-mcp.config.yml" then
    some "url: https://desk.example\nhost: 10.0.0.1".toList
  else none

def machine : Machine := ⟨"/srv/desk", "/home/alice", "/usr/local/bin"⟩

def given : Given := ⟨some "0.0.0.0", some 8080, some "*"⟩

def config : Config where
  url := "https://desk.example"
  authMethod := .basic
  transport := .http
  host := "0.0.0.0"
  port := 8080
  corsAllow := some "*"

theorem loaded : Command.loaded serde machine env files given.command = some (.ok config) := rfl

theorem cascade_http : given.Kept config :=
  (cascade serde).2 machine env files given config loaded

end Served

end TopdeskMcp.Theorems.Cascade
