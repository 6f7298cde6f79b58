import TopdeskMcp.Core.ConfigSchema
import TopdeskMcp.Core.Errors
import TopdeskMcp.Lib.HashMap
import TopdeskMcp.Lib.Json

/-!
# Loading the configuration (`core/config_manager.rs`)

Six layers are merged, the lowest first, and what comes out is deserialized: flags,
environment variables, and the files of the working directory, the home directory, the
system and the installation.

`serde_yaml` and the texts of its sibling's errors are parameters (`Serde`); the
deserialization that `Config` derives is `Config.fromMap`.
-/

namespace TopdeskMcp

/-- `serde_json::Map`. -/
abbrev JsonMap := AList fun _ : String => Json.Value

structure Serde where
  toYaml : Json.Value → Option (List Char)
  fromYaml : List Char → Option Json.Value
  fromValueError : JsonMap → String

/-- Objects of strings survive a YAML file, up to the order of their members. -/
def Serde.Lawful (serde : Serde) : Prop :=
  ∀ members : List (String × String), (members.map (·.1)).Nodup →
    ∃ yaml members', serde.toYaml (.object (members.map fun e => (e.1, .string e.2))) = some yaml ∧
      serde.fromYaml yaml = some (.object members') ∧
      members'.Perm (members.map fun e => (e.1, .string e.2))

/-- Where a process finds its files. -/
structure Machine where
  cwd : String
  home : String
  installDir : String

def localConfigFile : String := "topdesk-mcp.config.yml"

def configDirName : String := ".topdesk-mcp"

/-- The configuration files, the most local first. -/
def Machine.configFiles (machine : Machine) : List String :=
  [machine.cwd ++ "/" ++ localConfigFile, machine.home ++ "/" ++ configDirName ++ "/config.yml",
   "/etc/topdesk-mcp/config.yml", machine.installDir ++ "/config.yml"]

/-- The text of a file that can be read. -/
abbrev TextFiles := String → Option (List Char)

def readYamlIfExists (serde : Serde) (files : TextFiles) (path : String) : JsonMap :=
  match (files path).bind serde.fromYaml with
  | some (.object members) => (members.map fun e => ⟨e.1, e.2⟩).toAList
  | _ => ∅

/-- `str::parse` into an unsigned integer below the bound: digits, after a plus sign if need be. -/
def parseUnsigned (bound : Nat) (text : String) : Option Nat :=
  let digits := match text.toList with
    | '+' :: digits => digits
    | digits => digits
  if digits = [] ∨ digits.any fun c => !c.isDigit then none
  else
    let n := digits.foldl (fun n c => n * 10 + (c.toNat - '0'.toNat)) 0
    if n < bound then some n else none

def numericKeys : List String := ["rate_limit", "timeout_ms", "cache_size", "retry_attempts", "port"]

def parseEnvValue (configKey value : String) : Json.Value :=
  match if configKey ∈ numericKeys then parseUnsigned UInt64.size value else none with
  | some number => .number number.repr
  | none => .string value

/-- The configuration keys with the suffixes of their environment variables. -/
def envSuffixes : List (String × String) :=
  [("url", "URL"), ("auth_method", "AUTH_METHOD"), ("api_version", "API_VERSION"),
   ("log_level", "LOG_LEVEL"), ("transport", "TRANSPORT"), ("host", "HOST"),
   ("cors_allow", "CORS_ALLOW"), ("rate_limit", "RATE_LIMIT"), ("timeout_ms", "TIMEOUT_MS"),
   ("cache_size", "CACHE_SIZE"), ("retry_attempts", "RETRY_ATTEMPTS"), ("port", "PORT")]

def envVariable (suffix : String) : String := "TOPDESK_MCP_" ++ suffix

def envOverrides (env : StringMap) : JsonMap :=
  envSuffixes.foldl (fun overrides entry =>
    match env.lookup (envVariable entry.2) with
    | some value => overrides.insert entry.1 (parseEnvValue entry.1 value)
    | none => overrides) ∅

/-- Each layer is laid over those below it; the first one is the topmost. -/
def mergeLayers (layers : List JsonMap) : JsonMap :=
  layers.reverse.foldl (fun merged layer => layer ∪ merged) ∅

/-! ## Deserialization -/

/-- A unit variant: its name, or an object with its name and null. -/
def readVariant {α : Type} (variants : List (String × α)) : Json.Value → Option α
  | .string name => variants.lookup name
  | .object [(name, .null)] => variants.lookup name
  | _ => none

def AuthMethod.fromValue : Json.Value → Option AuthMethod := readVariant [("basic", .basic)]

def Transport.fromValue : Json.Value → Option Transport :=
  readVariant [("stdio", .stdio), ("http", .http)]

def readUnsigned (bound : Nat) : Json.Value → Option Nat
  | .number text => parseUnsigned bound text
  | _ => none

def readOptional : Json.Value → Option (Option String)
  | .null => some none
  | .string text => some (some text)
  | _ => none

/-- A field; one that is missing has its default, if there is one. -/
def readField {α : Type} (map : JsonMap) (key : String) (default : Option α)
    (read : Json.Value → Option α) : Option α :=
  match map.lookup key with
  | some value => read value
  | none => default

def Config.fromMap (map : JsonMap) : Option Config := do
  let url ← readField map "url" none Json.Value.asStr
  let authMethod ← readField map "auth_method" none AuthMethod.fromValue
  let apiVersion ← readField map "api_version" (some "general-1.2.0") Json.Value.asStr
  let logLevel ← readField map "log_level" (some "info") Json.Value.asStr
  let rateLimit ← readField map "rate_limit" (some 100) (readUnsigned UInt32.size)
  let timeoutMs ← readField map "timeout_ms" (some 30000) (readUnsigned UInt64.size)
  let cacheSize ← readField map "cache_size" (some 500) (readUnsigned UInt32.size)
  let retryAttempts ← readField map "retry_attempts" (some 3) (readUnsigned UInt32.size)
  let transport ← readField map "transport" (some .stdio) Transport.fromValue
  let host ← readField map "host" (some "127.0.0.1") Json.Value.asStr
  let port ← readField map "port" (some 3000) (readUnsigned UInt16.size)
  let corsAllow ← readField map "cors_allow" (some none) readOptional
  return { url, authMethod, apiVersion, logLevel, rateLimit := .ofNat rateLimit,
           timeoutMs := .ofNat timeoutMs, cacheSize := .ofNat cacheSize,
           retryAttempts := .ofNat retryAttempts, transport, host, port := .ofNat port, corsAllow }

def loadConfig (serde : Serde) (machine : Machine) (cliFlags : JsonMap) (env : StringMap)
    (files : TextFiles) : Except McpifyError Config :=
  let merged := mergeLayers
    (cliFlags :: envOverrides env :: machine.configFiles.map (readYamlIfExists serde files))
  match Config.fromMap merged with
  | some config => .ok config
  | none => .error (.configuration ("invalid configuration: " ++ serde.fromValueError merged))

/-! ## The cascade -/

/-- A key has its value in the first layer that has the key. -/
theorem lookup_mergeLayers (layers : List JsonMap) (key : String) :
    (mergeLayers layers).lookup key = layers.findSome? (·.lookup key) := by
  unfold mergeLayers
  rw [List.foldl_reverse]
  induction layers with
  | nil => rfl
  | cons layer layers ih =>
      rw [List.foldr_cons, List.findSome?_cons]
      by_cases hmem : key ∈ layer
      · obtain ⟨value, hvalue⟩ := AList.lookup_isSome.mpr hmem |> Option.isSome_iff_exists.mp
        rw [AList.lookup_union_left hmem, hvalue]
      · rw [AList.lookup_union_right hmem, AList.lookup_eq_none.mpr hmem]
        exact ih

/-- Layers that have a key agree on its value; then it does not matter which of them have it. -/
theorem findSome?_eq_of_forall {α β : Type} {f : α → Option β} {items : List α} {value : Option β}
    (hall : ∀ a ∈ items, f a = none ∨ f a = value) (hsome : ∃ a ∈ items, f a = value) :
    items.findSome? f = value := by
  obtain ⟨a, ha, hvalue⟩ := hsome
  cases hfound : items.findSome? f with
  | some found =>
      obtain ⟨b, hb, hfb⟩ := List.exists_of_findSome?_eq_some hfound
      rcases hall b hb with hnone | hsame
      · rw [hnone] at hfb
        simp at hfb
      · exact hfb.symm.trans hsame
  | none => exact (List.findSome?_eq_none_iff.mp hfound a ha).symm.trans hvalue

theorem lookup_foldl_overrides {env : StringMap} {key : String} (suffixes : List (String × String))
    (hnodup : (suffixes.map (·.1)).Nodup) (overrides : JsonMap) :
    (suffixes.foldl (fun overrides entry =>
      match env.lookup (envVariable entry.2) with
      | some value => overrides.insert entry.1 (parseEnvValue entry.1 value)
      | none => overrides) overrides).lookup key =
    ((suffixes.lookup key).bind fun suffix =>
      (env.lookup (envVariable suffix)).map (parseEnvValue key)).or (overrides.lookup key) := by
  induction suffixes generalizing overrides with
  | nil => rfl
  | cons entry suffixes ih =>
      obtain ⟨configKey, suffix⟩ := entry
      obtain ⟨hhead, hnodup⟩ := List.nodup_cons.mp hnodup
      rw [List.foldl_cons, ih hnodup]
      by_cases heq : key = configKey
      · subst heq
        have hlater : suffixes.lookup key = none := by
          rw [List.lookup_eq_none_iff]
          intro e he
          exact bne_iff_ne.mpr fun heq => hhead (List.mem_map.mpr ⟨e, he, heq.symm⟩)
        rw [hlater, List.lookup_cons_self, Option.bind_none, Option.none_or, Option.bind_some]
        cases env.lookup (envVariable suffix) with
        | none => rfl
        | some value => exact AList.lookup_insert overrides
      · rw [List.lookup_cons, beq_false_of_ne heq]
        cases env.lookup (envVariable suffix) with
        | none => rfl
        | some value =>
            exact congrArg (Option.or _) (AList.lookup_insert_ne heq)

/-- A key is set by its own variable and by no other one. -/
theorem lookup_envOverrides (env : StringMap) (key : String) :
    (envOverrides env).lookup key = (envSuffixes.lookup key).bind fun suffix =>
      (env.lookup (envVariable suffix)).map (parseEnvValue key) := by
  rw [envOverrides, lookup_foldl_overrides envSuffixes (by decide)]
  simp

/-! ## Files -/

theorem dlookup_members (members : List (String × Json.Value)) (key : String) :
    (members.map fun e => (⟨e.1, e.2⟩ : (_ : String) × Json.Value)).dlookup key =
      members.lookup key := by
  induction members with
  | nil => rfl
  | cons e members ih =>
      obtain ⟨name, value⟩ := e
      rw [List.map_cons, List.lookup_cons]
      by_cases heq : key = name
      · subst heq
        rw [List.dlookup_cons_eq, beq_self_eq_true]
      · rw [List.dlookup_cons_ne _ _ heq, beq_false_of_ne heq]
        exact ih

theorem lookup_map_string (members : List (String × String)) (key : String) :
    (members.map fun e => (e.1, Json.Value.string e.2)).lookup key =
      (members.lookup key).map .string := by
  induction members with
  | nil => rfl
  | cons e members ih =>
      obtain ⟨name, value⟩ := e
      rw [List.map_cons, List.lookup_cons, List.lookup_cons]
      cases key == name with
      | true => rfl
      | false => exact ih

/-- A file that `serde_yaml` wrote from an object of strings is a layer with its members. -/
theorem Serde.Lawful.readYamlIfExists {serde : Serde} (hserde : serde.Lawful)
    {members : List (String × String)} (hnodup : (members.map (·.1)).Nodup) :
    ∃ yaml, serde.toYaml (.object (members.map fun e => (e.1, .string e.2))) = some yaml ∧
      ∀ (files : TextFiles) path, files path = some yaml → ∀ key,
        (TopdeskMcp.readYamlIfExists serde files path).lookup key =
          (members.lookup key).map .string := by
  obtain ⟨yaml, members', htoYaml, hfromYaml, hperm⟩ := hserde members hnodup
  refine ⟨yaml, htoYaml, ?_⟩
  intro files path hpath key
  have hkeys : ((members.map fun e => (e.1, Json.Value.string e.2)).map fun e =>
      (⟨e.1, e.2⟩ : (_ : String) × Json.Value)).NodupKeys := by
    simpa [List.NodupKeys, List.keys, Function.comp_def] using hnodup
  rw [TopdeskMcp.readYamlIfExists, hpath, Option.bind_some, hfromYaml]
  show (members'.map _).toAList.lookup key = _
  rw [AList.lookup_to_alist, ← List.perm_dlookup key hkeys (hperm.symm.map _), dlookup_members,
    lookup_map_string]

/-! ## Fields -/

@[simp] theorem AuthMethod.fromValue_toStr (authMethod : AuthMethod) :
    AuthMethod.fromValue (.string authMethod.toStr) = some authMethod := by
  cases authMethod
  decide

@[simp] theorem Transport.fromValue_toStr (transport : Transport) :
    Transport.fromValue (.string transport.toStr) = some transport := by
  cases transport <;> decide

/-- A map with these four keys, and none of the other keys of a configuration. -/
theorem Config.fromMap_eq {map : JsonMap} {url apiVersion : String} {authMethod : AuthMethod}
    {transport : Transport} (h : ∀ key ∈ envSuffixes.map (·.1), map.lookup key =
      ([("url", url), ("auth_method", authMethod.toStr), ("api_version", apiVersion),
        ("transport", transport.toStr)].lookup key).map .string) :
    Config.fromMap map = some { url, authMethod, apiVersion, transport } := by
  have hpresent : ∀ {α : Type} (key value : String) (default : Option α)
      (read : Json.Value → Option α), key ∈ envSuffixes.map (·.1) →
      [("url", url), ("auth_method", authMethod.toStr), ("api_version", apiVersion),
        ("transport", transport.toStr)].lookup key = some value →
      readField map key default read = read (.string value) := by
    intro α key value default read hkey hvalue
    rw [readField, h key hkey, hvalue]
    rfl
  have hmissing : ∀ {α : Type} (key : String) (default : Option α) (read : Json.Value → Option α),
      key ∈ envSuffixes.map (·.1) →
      [("url", url), ("auth_method", authMethod.toStr), ("api_version", apiVersion),
        ("transport", transport.toStr)].lookup key = none →
      readField map key default read = default := by
    intro α key default read hkey hvalue
    rw [readField, h key hkey, hvalue]
    rfl
  rw [Config.fromMap, hpresent "url" url _ _ (by decide) rfl,
    hpresent "auth_method" authMethod.toStr _ _ (by decide) rfl, AuthMethod.fromValue_toStr,
    hpresent "api_version" apiVersion _ _ (by decide) rfl, hmissing "log_level" _ _ (by decide) rfl,
    hmissing "rate_limit" _ _ (by decide) rfl, hmissing "timeout_ms" _ _ (by decide) rfl,
    hmissing "cache_size" _ _ (by decide) rfl, hmissing "retry_attempts" _ _ (by decide) rfl,
    hpresent "transport" transport.toStr _ _ (by decide) rfl, Transport.fromValue_toStr,
    hmissing "host" _ _ (by decide) rfl, hmissing "port" _ _ (by decide) rfl,
    hmissing "cors_allow" _ _ (by decide) rfl]
  rfl

theorem readField_eq_some {α : Type} {map : JsonMap} {key : String} {default : Option α}
    {read : Json.Value → Option α} {a : α} (h : readField map key default read = some a) :
    (∃ value, map.lookup key = some value ∧ read value = some a) ∨ default = some a := by
  rw [readField] at h
  split at h
  · rename_i value hvalue
    exact .inl ⟨value, hvalue, h⟩
  · exact .inr h

/-- The fields of a configuration are what is read of a map. -/
structure Config.IsRead (map : JsonMap) (config : Config) : Prop where
  url : readField map "url" none Json.Value.asStr = some config.url
  apiVersion : readField map "api_version" (some "general-1.2.0") Json.Value.asStr =
    some config.apiVersion
  transport : readField map "transport" (some .stdio) Transport.fromValue = some config.transport
  host : readField map "host" (some "127.0.0.1") Json.Value.asStr = some config.host
  port : ∃ n, readField map "port" (some 3000) (readUnsigned UInt16.size) = some n ∧
    config.port = .ofNat n
  corsAllow : readField map "cors_allow" (some none) readOptional = some config.corsAllow

theorem Config.isRead_of_fromMap {map : JsonMap} {config : Config}
    (h : Config.fromMap map = some config) : config.IsRead map := by
  obtain ⟨url, hurl, h⟩ := Option.bind_eq_some_iff.mp h
  obtain ⟨authMethod, -, h⟩ := Option.bind_eq_some_iff.mp h
  obtain ⟨apiVersion, hversion, h⟩ := Option.bind_eq_some_iff.mp h
  obtain ⟨logLevel, -, h⟩ := Option.bind_eq_some_iff.mp h
  obtain ⟨rateLimit, -, h⟩ := Option.bind_eq_some_iff.mp h
  obtain ⟨timeoutMs, -, h⟩ := Option.bind_eq_some_iff.mp h
  obtain ⟨cacheSize, -, h⟩ := Option.bind_eq_some_iff.mp h
  obtain ⟨retryAttempts, -, h⟩ := Option.bind_eq_some_iff.mp h
  obtain ⟨transport, htransport, h⟩ := Option.bind_eq_some_iff.mp h
  obtain ⟨host, hhost, h⟩ := Option.bind_eq_some_iff.mp h
  obtain ⟨port, hport, h⟩ := Option.bind_eq_some_iff.mp h
  obtain ⟨corsAllow, hcors, h⟩ := Option.bind_eq_some_iff.mp h
  obtain rfl := Option.some.inj h
  exact ⟨hurl, hversion, htransport, hhost, ⟨port, hport, rfl⟩, hcors⟩

/-- Where the URL and the version of a configuration come from. -/
theorem Config.lookup_of_fromMap {map : JsonMap} {config : Config}
    (h : Config.fromMap map = some config) :
    map.lookup "url" = some (.string config.url) ∧
      (map.lookup "api_version" = some (.string config.apiVersion) ∨
        config.apiVersion = "general-1.2.0") := by
  have hread := Config.isRead_of_fromMap h
  constructor
  · rcases readField_eq_some hread.url with ⟨value, hvalue, hstr⟩ | hdefault
    · rw [hvalue, Json.Value.asStr_eq_some hstr]
    · simp at hdefault
  · rcases readField_eq_some hread.apiVersion with ⟨value, hvalue, hstr⟩ | hdefault
    · exact .inl (by rw [hvalue, Json.Value.asStr_eq_some hstr])
    · exact .inr (Option.some.inj hdefault).symm

end TopdeskMcp
