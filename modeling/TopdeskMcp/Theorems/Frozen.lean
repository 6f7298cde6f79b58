import TopdeskMcp.Cli.Config
import TopdeskMcp.Theorems.Cascade

/-!
# A configuration that is written down

What `config` prints is a configuration file. Where it is put in place of the local file nothing
below it matters any more, and what is above says the same as before: the program has the same
configuration again (`config_freezes`).
-/

namespace TopdeskMcp.Theorems.Frozen

open TopdeskMcp Cascade

section

variable {serde : Serde} {machine machine' : Machine} {env env' : StringMap}
  {files files' : TextFiles} {map map' : JsonMap} {config : Config}

/-! ## Fields -/

theorem parseUnsigned_lt {bound n : Nat} {text : String} (h : parseUnsigned bound text = some n) :
    n < bound := by
  unfold parseUnsigned at h
  extract_lets digits number at h
  rw [Option.ite_none_left_eq_some, Option.ite_none_right_eq_some] at h
  obtain ⟨-, hlt, heq⟩ := h
  exact Option.some.inj heq ▸ hlt

theorem readUnsigned_lt {bound n : Nat} {value : Json.Value}
    (h : readUnsigned bound value = some n) : n < bound := by
  cases value with
  | number text => exact parseUnsigned_lt h
  | _ => simp [readUnsigned] at h

theorem readField_lt {bound n default : Nat} {key : String}
    (h : readField map key (some default) (readUnsigned bound) = some n)
    (hdefault : default < bound) : n < bound := by
  rcases readField_eq_some h with ⟨value, -, hvalue⟩ | hsome
  · exact readUnsigned_lt hvalue
  · exact Option.some.inj hsome ▸ hdefault

/-- All fields of a configuration are what is read of a map. -/
structure Reads (map : JsonMap) (config : Config) : Prop where
  url : readField map "url" none Json.Value.asStr = some config.url
  authMethod : readField map "auth_method" none AuthMethod.fromValue = some config.authMethod
  apiVersion : readField map "api_version" (some "general-1.2.0") Json.Value.asStr =
    some config.apiVersion
  logLevel : readField map "log_level" (some "info") Json.Value.asStr = some config.logLevel
  rateLimit : readField map "rate_limit" (some 100) (readUnsigned UInt32.size) =
    some config.rateLimit.toNat
  timeoutMs : readField map "timeout_ms" (some 30000) (readUnsigned UInt64.size) =
    some config.timeoutMs.toNat
  cacheSize : readField map "cache_size" (some 500) (readUnsigned UInt32.size) =
    some config.cacheSize.toNat
  retryAttempts : readField map "retry_attempts" (some 3) (readUnsigned UInt32.size) =
    some config.retryAttempts.toNat
  transport : readField map "transport" (some .stdio) Transport.fromValue = some config.transport
  host : readField map "host" (some "127.0.0.1") Json.Value.asStr = some config.host
  port : readField map "port" (some 3000) (readUnsigned UInt16.size) = some config.port.toNat
  corsAllow : readField map "cors_allow" (some none) readOptional = some config.corsAllow

theorem fromMap_eq_some_iff : Config.fromMap map = some config ↔ Reads map config := by
  constructor
  · intro h
    obtain ⟨url, hurl, h⟩ := Option.bind_eq_some_iff.mp h
    obtain ⟨authMethod, hmethod, h⟩ := Option.bind_eq_some_iff.mp h
    obtain ⟨apiVersion, hversion, h⟩ := Option.bind_eq_some_iff.mp h
    obtain ⟨logLevel, hlevel, h⟩ := Option.bind_eq_some_iff.mp h
    obtain ⟨rateLimit, hrate, h⟩ := Option.bind_eq_some_iff.mp h
    obtain ⟨timeoutMs, htimeout, h⟩ := Option.bind_eq_some_iff.mp h
    obtain ⟨cacheSize, hcache, h⟩ := Option.bind_eq_some_iff.mp h
    obtain ⟨retryAttempts, hretry, h⟩ := Option.bind_eq_some_iff.mp h
    obtain ⟨transport, htransport, h⟩ := Option.bind_eq_some_iff.mp h
    obtain ⟨host, hhost, h⟩ := Option.bind_eq_some_iff.mp h
    obtain ⟨port, hport, h⟩ := Option.bind_eq_some_iff.mp h
    obtain ⟨corsAllow, hcors, h⟩ := Option.bind_eq_some_iff.mp h
    obtain rfl := Option.some.inj h
    refine ⟨hurl, hmethod, hversion, hlevel, ?_, ?_, ?_, ?_, htransport, hhost, ?_, hcors⟩
    · rwa [UInt32.toNat_ofNat_of_lt' (readField_lt hrate (by decide))]
    · rwa [UInt64.toNat_ofNat_of_lt' (readField_lt htimeout (by decide))]
    · rwa [UInt32.toNat_ofNat_of_lt' (readField_lt hcache (by decide))]
    · rwa [UInt32.toNat_ofNat_of_lt' (readField_lt hretry (by decide))]
    · rwa [UInt16.toNat_ofNat_of_lt' (readField_lt hport (by decide))]
  · intro h
    rw [Config.fromMap, h.url, h.authMethod, h.apiVersion, h.logLevel, h.rateLimit, h.timeoutMs,
      h.cacheSize, h.retryAttempts, h.transport, h.host, h.port, h.corsAllow]
    simp

/-- What is read of a key stays, where the key keeps its value or has one that is read as the
same. -/
theorem readField_kept {α : Type} {key : String} {default : Option α}
    {read : Json.Value → Option α} {a : α} {value : Json.Value}
    (hkey : map'.lookup key = map.lookup key ∧ (map.lookup key).isSome ∨
      map'.lookup key = some value)
    (hread : readField map key default read = some a) (hvalue : read value = some a) :
    readField map' key default read = some a := by
  rcases hkey with ⟨hsame, -⟩ | hwritten
  · rw [readField, hsame]
    exact hread
  · rw [readField, hwritten]
    exact hvalue

theorem readUnsigned_repr {bound n : Nat} (h : n < bound) :
    readUnsigned bound (.number n.repr) = some n := parseUnsigned_repr h

theorem readOptional_ofOption (text : Option String) :
    readOptional (.ofOption text) = some text := by
  cases text <;> rfl

/-- The configuration that is written down is read again. -/
theorem Reads.kept (h : Reads map config) (hkeys : ∀ key value,
      config.members.lookup key = some value →
        map'.lookup key = map.lookup key ∧ (map.lookup key).isSome ∨
          map'.lookup key = some value) : Reads map' config where
  url := readField_kept (hkeys _ _ rfl) h.url rfl
  authMethod := readField_kept (hkeys _ _ rfl) h.authMethod (AuthMethod.fromValue_toStr _)
  apiVersion := readField_kept (hkeys _ _ rfl) h.apiVersion rfl
  logLevel := readField_kept (hkeys _ _ rfl) h.logLevel rfl
  rateLimit := readField_kept (hkeys _ _ rfl) h.rateLimit
    (readUnsigned_repr config.rateLimit.toNat_lt)
  timeoutMs := readField_kept (hkeys _ _ rfl) h.timeoutMs
    (readUnsigned_repr config.timeoutMs.toNat_lt)
  cacheSize := readField_kept (hkeys _ _ rfl) h.cacheSize
    (readUnsigned_repr config.cacheSize.toNat_lt)
  retryAttempts := readField_kept (hkeys _ _ rfl) h.retryAttempts
    (readUnsigned_repr config.retryAttempts.toNat_lt)
  transport := readField_kept (hkeys _ _ rfl) h.transport (Transport.fromValue_toStr _)
  host := readField_kept (hkeys _ _ rfl) h.host rfl
  port := readField_kept (hkeys _ _ rfl) h.port (readUnsigned_repr config.port.toNat_lt)
  corsAllow := readField_kept (hkeys _ _ rfl) h.corsAllow (readOptional_ofOption _)

/-! ## The file -/

/-- No key of a configuration looks like that of a secret. -/
theorem sanitize_members (config : Config) :
    Sanitizer.sanitize (.object config.members) = .object config.members := by
  have hkeys : ∀ key ∈ config.members.map (·.1), Sanitizer.isSensitiveKey key = false := by
    show ∀ key ∈ ["url", "auth_method", "api_version", "log_level", "rate_limit", "timeout_ms",
      "cache_size", "retry_attempts", "transport", "host", "port", "cors_allow"], _
    decide
  have hvalues : ∀ member ∈ config.members, Sanitizer.sanitize member.2 = member.2 := by
    cases hcors : config.corsAllow <;>
      simp [Config.members, hcors, Json.Value.ofOption, Sanitizer.sanitize]
  rw [Sanitizer.sanitize, Sanitizer.sanitizeMembers_eq_map]
  refine congrArg Json.Value.object ?_
  refine (List.map_congr_left fun member hmember => ?_).trans (List.map_id _)
  rw [hkeys member.1 (List.mem_map_of_mem hmember), hvalues member hmember]
  rfl

/-- YAML has the values of JSON: the file is read as the object that was printed. -/
def ReadsPrinted (serde : Serde) (toStringPretty : Json.Value → String) (config : Config) : Prop :=
  ∃ printed members, Sanitizer.sanitize (.object config.members) = .object printed ∧
    serde.fromYaml (config.print toStringPretty).toList = some (.object members) ∧
    members.Perm printed

theorem lookup_perm {members members' : List (String × Json.Value)} (h : members'.Perm members)
    (hnodup : (members.map (·.1)).Nodup) (key : String) :
    members'.lookup key = members.lookup key := by
  have hkeys : (members.map fun e => (⟨e.1, e.2⟩ : (_ : String) × Json.Value)).NodupKeys := by
    simpa [List.NodupKeys, List.keys, Function.comp_def] using hnodup
  rw [← dlookup_members, ← dlookup_members]
  exact (List.perm_dlookup key hkeys (h.symm.map _)).symm

theorem fileValue_printed {toStringPretty : Json.Value → String} {path : String}
    (hreads : ReadsPrinted serde toStringPretty config)
    (hfile : files path = some (config.print toStringPretty).toList) (key : String) :
    fileValue serde files path key = config.members.lookup key := by
  obtain ⟨printed, members, hprinted, hyaml, hperm⟩ := hreads
  rw [sanitize_members] at hprinted
  obtain rfl := Json.Value.object.inj hprinted
  have hnodup : (config.members.map (·.1)).Nodup := by
    show ["url", "auth_method", "api_version", "log_level", "rate_limit", "timeout_ms",
      "cache_size", "retry_attempts", "transport", "host", "port", "cors_allow"].Nodup
    decide
  rw [fileValue, hfile, Option.bind_some, hyaml]
  exact lookup_perm hperm hnodup key

/-! ## The layers -/

/-- Variables are not set again to something else. -/
def Unset (env env' : StringMap) : Prop :=
  ∀ suffix value, env'.lookup (envVariable suffix) = some value →
    env.lookup (envVariable suffix) = some value

theorem Unset.envValue {key : String} {value : Json.Value} (h : Unset env env')
    (hvalue : Cascade.envValue env' key = some value) : Cascade.envValue env key = some value := by
  obtain ⟨suffix, hsuffix, hmap⟩ := Option.bind_eq_some_iff.mp hvalue
  obtain ⟨text, htext, rfl⟩ := Option.map_eq_some_iff.mp hmap
  rw [Cascade.envValue, hsuffix, Option.bind_some, h suffix text htext, Option.map_some]

/-- A key that a variable sets has its value from there, another one what the local file says. -/
theorem lookup_merged_local {key : String} (henv : Unset env env') {value : Json.Value}
    (hlocal : fileValue serde files' (machine'.cwd ++ "/" ++ localConfigFile) key = some value) :
    (merged serde ⟨∅, env', machine', files'⟩).lookup key =
        (merged serde ⟨∅, env, machine, files⟩).lookup key ∧
        ((merged serde ⟨∅, env, machine, files⟩).lookup key).isSome ∨
      (merged serde ⟨∅, env', machine', files'⟩).lookup key = some value := by
  cases hvalue : envValue env' key with
  | some set =>
      have hbefore := henv.envValue hvalue
      left
      rw [lookup_merged, lookup_merged, values, values, AList.lookup_empty, hvalue, hbefore]
      exact ⟨rfl, rfl⟩
  | none =>
      right
      rw [lookup_merged, values, AList.lookup_empty, hvalue, Machine.configFiles, List.map_cons,
        hlocal]
      rfl

theorem loadConfig_eq_ok_iff : loadConfig serde machine ∅ env files = .ok config ↔
    Reads (merged serde ⟨∅, env, machine, files⟩) config := by
  rw [← fromMap_eq_some_iff, (cascades serde ⟨∅, env, machine, files⟩).loads, deserialize]
  cases Config.fromMap (merged serde ⟨∅, env, machine, files⟩) <;> simp

/-- **A configuration that is written down.** What `config` prints is put in place of the local
file, of the same working directory or of another one. The program has the same configuration again
and prints the same text, whatever has become of the other files and of the home and installation
directories, and of the variables: each of them has its old value or none at all. -/
theorem config_freezes (toStringPretty : Json.Value → String)
    (hload : loadConfig serde machine ∅ (Command.config.environment env) files = .ok config)
    (hreads : ReadsPrinted serde toStringPretty config)
    (hfile : files' (machine'.cwd ++ "/" ++ localConfigFile) =
      some (config.print toStringPretty).toList)
    (henv : Unset env env') :
    loadConfig serde machine' ∅ env' files' = .ok config ∧
      ConfigCommand.run toStringPretty serde machine' env' files' =
        ConfigCommand.run toStringPretty serde machine env files := by
  have hagain : loadConfig serde machine' ∅ env' files' = .ok config := by
    refine loadConfig_eq_ok_iff.mpr ((loadConfig_eq_ok_iff.mp hload).kept fun key value hkey => ?_)
    refine lookup_merged_local henv ?_
    rw [fileValue_printed hreads hfile, hkey]
  refine ⟨hagain, ?_⟩
  show (loadConfig serde machine' ∅ env' files').map _ = Except.map _ (loadConfig _ _ _ _ _)
  rw [hagain, hload]

end

/-! ## A server that moves -/

namespace Moved

open Cascade.Served (env files machine)

/-- An object of plain values. -/
def toStringPretty : Json.Value → String
  | .object members => "\x7b\n" ++ ",\n".intercalate (members.map fun member =>
      "  \"" ++ member.1 ++ "\": " ++ String.ofList member.2.write) ++ "\n\x7d"
  | value => String.ofList value.write

/-- The port is from the environment, the address and the host are from the local file. -/
def config : Config where
  url := "https://desk.example"
  authMethod := .basic
  host := "10.0.0.1"
  port := 3001

/-- The two files there are. -/
def serde : Serde :=
  { Cascade.Served.serde with
    fromYaml := fun text =>
      if text = "url: https://desk.example\nhost: 10.0.0.1".toList then
        some (.object [("url", .string "https://desk.example"), ("host", .string "10.0.0.1")])
      else some (.object config.members) }

/-- Another machine, with no other file and no variables. -/
def machine' : Machine := ⟨"/opt/desk", "/root", "/opt/desk/bin"⟩

def files' : TextFiles := fun path =>
  if path = "/opt/desk/topdesk-mcp.config.yml" then some (config.print toStringPretty).toList
  else none

theorem loaded : loadConfig serde machine ∅ (Command.config.environment env) files = .ok config :=
  rfl

theorem fromYaml_of_ne {text : List Char}
    (h : text ≠ "url: https://desk.example\nhost: 10.0.0.1".toList) :
    serde.fromYaml text = some (.object config.members) := if_neg h

theorem readsPrinted : ReadsPrinted serde toStringPretty config := by
  refine ⟨config.members, config.members, sanitize_members config, fromYaml_of_ne fun h => ?_,
    .refl _⟩
  rw [Config.print, sanitize_members, toStringPretty] at h
  have hhead := congrArg List.head? h
  simp at hhead

theorem config_freezes_moved : loadConfig serde machine' ∅ ∅ files' = .ok config :=
  (config_freezes toStringPretty loaded readsPrinted (if_pos rfl)
    fun suffix value h => by simp at h).1

end Moved

end TopdeskMcp.Theorems.Frozen
