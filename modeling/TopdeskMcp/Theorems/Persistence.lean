import TopdeskMcp.Lib.Shell
import TopdeskMcp.Main
import TopdeskMcp.Theorems.Setup

/-!
# Running the program from what setup leaves

Setup offers four ways to keep the settings. The program is run with the output of one of
them and nothing else, and should come to be configured with what was chosen. The two YAML
files bring it there. The `.env` file does as long as no setting has a line break, which would
end its line; the printed command line has flags that `start` does not take.
-/

namespace TopdeskMcp.Theorems.Persistence

open TopdeskMcp TopdeskMcp.Setup TopdeskMcp.Theorems.Setup

structure Settings where
  url : String
  authMethod : AuthMethod
  apiVersion : String
  transport : Transport

/-- What the operator answers; a prompt reads a line. -/
structure Answers where
  username : String
  password : String
  username_line : '\n' ∉ username.toList
  password_line : '\n' ∉ password.toList

/-- The crates, the hash order and the machine of a run. -/
structure Platform where
  clap : Clap
  serde : Serde
  order : HashOrder
  unicode : Char → List Char
  machine : Machine

/-- What the program meets: the environment, the files, and the arguments to run it with. -/
structure Output where
  env : StringMap
  files : TextFiles
  runs : List (List String)

variable (P : Platform) (s : Settings) (a : Answers)

/-- The choices as `persist_selection` passes them on. -/
def choices (choice : Choice) : Choices :=
  ⟨s.url, s.authMethod, s.apiVersion, s.transport, choice.label, P.machine.cwd,
    P.machine.home ++ "/.topdesk-mcp/config.yml"⟩

/-- With a file the program is run with the command that setup names, and to print its
configuration. -/
def fileRuns (transport : Transport) : List (List String) := [[runCommand transport], ["config"]]

/-- There is one file. -/
def onlyFile (written : Written) : TextFiles := fun path =>
  if path = written.path then some written.contents else none

def output (choice : Choice) : Option Output :=
  match choice with
  | .cli =>
      let settings := buildRuntimeSettings P.order s.url s.authMethod s.apiVersion s.transport
        (promptCredentials a.username a.password)
      (Shell.words (cliInvocation P.order P.unicode settings.1)).map fun words =>
        ⟨∅, fun _ => none, [words.tail]⟩
  | .dotEnv =>
      match setup P.order P.serde.toYaml (choices P s .dotEnv) a.username a.password with
      | some (some written) =>
          some ⟨Shell.assignments written.contents, fun _ => none, fileRuns s.transport⟩
      | _ => none
  | .globalYaml | .localYaml =>
      match setup P.order P.serde.toYaml (choices P s choice) a.username a.password with
      | some (some written) => some ⟨∅, onlyFile written, fileRuns s.transport⟩
      | _ => none

/-- The output of the choice is accepted and gives back the settings. -/
def Reproduces (choice : Choice) : Prop :=
  ∃ out, output P s a choice = some out ∧ ∀ args ∈ out.runs, ∃ config,
    runWith P.clap P.serde P.machine out.env out.files args = some (.ok config) ∧
    config.url = s.url ∧ config.authMethod = s.authMethod ∧ config.apiVersion = s.apiVersion ∧
    (choice ≠ .cli → config.transport = s.transport)

/-- The choices that work, and for which settings. -/
def Usable : Choice → Prop
  | .dotEnv => '\n' ∉ s.url.toList ∧ '\n' ∉ s.apiVersion.toList
  | .globalYaml | .localYaml => True
  | .cli => False

/-! ## Runs -/

variable {P s a} {env : StringMap} {files : TextFiles}

/-- A file's run reads the configuration, with the transport set to what was chosen or left. -/
theorem runWith_fileRuns (env : StringMap) (files : TextFiles) (hclap : P.clap.Lawful)
    {args : List String} (hargs : args ∈ fileRuns s.transport) :
    ∃ env', runWith P.clap P.serde P.machine env files args =
        some (loadConfig P.serde P.machine ∅ env' files) ∧
      (env' = env ∨ env' = env.insert "TOPDESK_MCP_TRANSPORT" s.transport.toStr) := by
  rcases List.mem_pair.mp hargs with rfl | rfl
  · refine ⟨env.insert "TOPDESK_MCP_TRANSPORT" s.transport.toStr, ?_, .inr rfl⟩
    cases htransport : s.transport with
    | stdio =>
        rw [runWith, runCommand, hclap.bare ⟨"start", [], []⟩ (by simp [commands]) rfl]
        rfl
    | http =>
        rw [runWith, runCommand, hclap.bare ⟨"http", [], _⟩ (by simp [commands]; rfl) rfl]
        rfl
  · refine ⟨env, ?_, .inl rfl⟩
    rw [runWith, hclap.bare ⟨"config", [], []⟩ (by simp [commands]) rfl]
    rfl

/-- The fields that a configuration should have. -/
def fields (s : Settings) : List (String × String) :=
  [("url", s.url), ("auth_method", s.authMethod.toStr), ("api_version", s.apiVersion),
   ("transport", s.transport.toStr)]

def config (s : Settings) : Config :=
  { url := s.url, authMethod := s.authMethod, apiVersion := s.apiVersion, transport := s.transport }

/-- The layers of an environment and of the files of a machine. -/
def layers (P : Platform) (env : StringMap) (files : TextFiles) : List JsonMap :=
  ∅ :: envOverrides env :: P.machine.configFiles.map (readYamlIfExists P.serde files)

/-- Layers that have the fields, and no other key of a configuration, one or the other. -/
theorem loadConfig_eq (hall : ∀ key ∈ envSuffixes.map (·.1), ∀ layer ∈ layers P env files,
      layer.lookup key = none ∨ layer.lookup key = ((fields s).lookup key).map .string)
    (hsome : ∃ layer ∈ layers P env files, ∀ key ∈ envSuffixes.map (·.1),
      layer.lookup key = ((fields s).lookup key).map .string) :
    loadConfig P.serde P.machine ∅ env files = .ok (config s) := by
  have hmap : Config.fromMap (mergeLayers (layers P env files)) = some (config s) := by
    apply Config.fromMap_eq
    intro key hkey
    rw [lookup_mergeLayers]
    obtain ⟨layer, hlayer, hlookup⟩ := hsome
    exact findSome?_eq_of_forall (hall key hkey) ⟨layer, hlayer, hlookup key hkey⟩
  unfold layers at hmap
  rw [loadConfig, hmap]

/-! ## The `.env` file -/

/-- The variables that setup makes. -/
def entries (s : Settings) (a : Answers) : List (String × String) :=
  [("TOPDESK_MCP_PASSWORD", a.password), ("TOPDESK_MCP_USERNAME", a.username),
   ("TOPDESK_MCP_TRANSPORT", s.transport.toStr), ("TOPDESK_MCP_API_VERSION", s.apiVersion),
   ("TOPDESK_MCP_AUTH_METHOD", s.authMethod.toStr), ("TOPDESK_MCP_URL", s.url)]

/-- The map they are kept in, by the choice's order. -/
def entryMap (P : Platform) (s : Settings) (a : Answers) : StringMap :=
  settingsEnv P.order (choices P s .dotEnv) a.username a.password

theorem entryMap_perm (P : Platform) (s : Settings) (a : Answers) :
    (P.order.iter (entryMap P s a)).Perm (entries s a) :=
  (P.order.perm _).trans (settingsEnv_pairs P.order (choices P s .dotEnv) a.username a.password)

theorem entries_keys_nodup (s : Settings) (a : Answers) :
    ((entries s a).map (·.1)).Nodup := by
  show ["TOPDESK_MCP_PASSWORD", "TOPDESK_MCP_USERNAME", "TOPDESK_MCP_TRANSPORT",
    "TOPDESK_MCP_API_VERSION", "TOPDESK_MCP_AUTH_METHOD", "TOPDESK_MCP_URL"].Nodup
  decide

def dotEnvContents (P : Platform) (s : Settings) (a : Answers) : List Char :=
  ['\n'].intercalate ((P.order.iter (entryMap P s a)).map envLine) ++ ['\n']

theorem setup_dotEnv : setup P.order P.serde.toYaml (choices P s .dotEnv) a.username a.password =
    some (some ⟨P.machine.cwd ++ "/.env", dotEnvContents P s a⟩) := by
  rw [setup, buildRuntimeSettings_eq]
  exact if_pos rfl

theorem output_dotEnv : output P s a .dotEnv =
    some ⟨Shell.assignments (dotEnvContents P s a), fun _ => none, fileRuns s.transport⟩ := by
  unfold output
  rw [setup_dotEnv]

theorem entries_keys_plain {e : String × String} (he : e ∈ entries s a) :
    '\n' ∉ e.1.toList ∧ '=' ∉ e.1.toList := by
  have hkey : e.1 ∈ (entries s a).map (·.1) := List.mem_map.mpr ⟨e, he, rfl⟩
  have hall : ∀ key ∈ ["TOPDESK_MCP_PASSWORD", "TOPDESK_MCP_USERNAME", "TOPDESK_MCP_TRANSPORT",
      "TOPDESK_MCP_API_VERSION", "TOPDESK_MCP_AUTH_METHOD", "TOPDESK_MCP_URL"],
      '\n' ∉ key.toList ∧ '=' ∉ key.toList := by decide
  exact hall e.1 hkey

/-- An entry whose value is on one line makes one line, and is read back from it. -/
theorem entry_line {e : String × String} (he : e ∈ entries s a) (hvalue : '\n' ∉ e.2.toList) :
    lines (envLine e) = [envLine e] ∧ Shell.assignment (envLine e) = some e := by
  obtain ⟨hnewline, hequals⟩ := entries_keys_plain he
  refine ⟨lines_envLine hnewline hvalue, ?_⟩
  rw [envLine, Shell.assignment_line hequals, String.ofList_toList, String.ofList_toList]

/-- Values on one line are read back. -/
theorem lookup_dotEnv (hvalues : ∀ e ∈ entries s a, '\n' ∉ e.2.toList) (key : String) :
    (Shell.assignments (dotEnvContents P s a)).lookup key = (entries s a).lookup key := by
  have hperm := entryMap_perm P s a
  have hmem : ∀ e ∈ P.order.iter (entryMap P s a), e ∈ entries s a :=
    fun e he => hperm.mem_iff.mp he
  have hne : (P.order.iter (entryMap P s a)).map envLine ≠ [] := by
    intro hnil
    have hlength := hperm.length_eq
    rw [List.map_eq_nil_iff.mp hnil] at hlength
    simp [entries] at hlength
  have hlines : (dotEnvContents P s a).splitOn '\n' =
      (P.order.iter (entryMap P s a)).map envLine ++ [[]] := by
    show lines (['\n'].intercalate _ ++ ['\n']) = _
    rw [lines_joined hne, List.flatMap_map]
    congr 1
    rw [List.flatMap_congr fun e he => (entry_line (hmem e he) (hvalues e (hmem e he))).1]
    exact List.map_eq_flatMap.symm
  have hassignments : ((dotEnvContents P s a).splitOn '\n').filterMap Shell.assignment =
      P.order.iter (entryMap P s a) := by
    have hread : ∀ e ∈ P.order.iter (entryMap P s a),
        (Shell.assignment ∘ envLine) e = some e := fun e he =>
      (entry_line (hmem e he) (hvalues e (hmem e he))).2
    rw [hlines, List.filterMap_append, List.filterMap_map, List.filterMap_congr hread,
      List.filterMap_some]
    exact List.append_nil _
  rw [Shell.assignments, hassignments]
  exact StringMap.lookup_foldl_insert_perm hperm (entries_keys_nodup s a) key

/-- The variables set the fields and nothing else. -/
theorem lookup_envOverrides_entries {env : StringMap}
    (henv : ∀ key, env.lookup key = (entries s a).lookup key) {key : String}
    (hkey : key ∈ envSuffixes.map (·.1)) :
    (envOverrides env).lookup key = ((fields s).lookup key).map .string := by
  rw [lookup_envOverrides]
  simp only [henv]
  simp only [envSuffixes, List.map_cons, List.map_nil, List.mem_cons, List.not_mem_nil,
    or_false] at hkey
  rcases hkey with rfl | rfl | rfl | rfl | rfl | rfl | rfl | rfl | rfl | rfl | rfl | rfl <;> rfl

/-- Running the program does not change them. -/
theorem lookup_insert_transport {env : StringMap}
    (henv : ∀ key, env.lookup key = (entries s a).lookup key) (key : String) :
    (env.insert "TOPDESK_MCP_TRANSPORT" s.transport.toStr).lookup key =
      (entries s a).lookup key := by
  by_cases heq : key = "TOPDESK_MCP_TRANSPORT"
  · subst heq
    rw [AList.lookup_insert]
    rfl
  · rw [AList.lookup_insert_ne heq, henv]

theorem layers_of_no_files {layer : JsonMap} (h : layer ∈ layers P env fun _ => none) :
    layer = ∅ ∨ layer = envOverrides env := by
  simp only [layers, List.mem_cons, List.mem_map] at h
  rcases h with rfl | rfl | ⟨path, -, rfl⟩
  · exact .inl rfl
  · exact .inr rfl
  · exact .inl rfl

theorem reproduces_dotEnv (hclap : P.clap.Lawful) (hurl : '\n' ∉ s.url.toList)
    (hversion : '\n' ∉ s.apiVersion.toList) : Reproduces P s a .dotEnv := by
  have hvalues : ∀ e ∈ entries s a, '\n' ∉ e.2.toList := by
    intro e he
    simp only [entries, List.mem_cons, List.not_mem_nil, or_false] at he
    rcases he with rfl | rfl | rfl | rfl | rfl | rfl
    · exact a.password_line
    · exact a.username_line
    · cases s.transport <;> decide
    · exact hversion
    · cases s.authMethod
      decide
    · exact hurl
  refine ⟨_, output_dotEnv, ?_⟩
  intro args hargs
  obtain ⟨env', hrun, henv'⟩ := runWith_fileRuns
    (Shell.assignments (dotEnvContents P s a)) (fun _ => none) hclap hargs
  have hlookup : ∀ key, env'.lookup key = (entries s a).lookup key := by
    rcases henv' with rfl | rfl
    · exact lookup_dotEnv hvalues
    · exact lookup_insert_transport (lookup_dotEnv hvalues)
  refine ⟨config s, ?_, rfl, rfl, rfl, fun _ => rfl⟩
  rw [hrun, loadConfig_eq (s := s)]
  · intro key hkey layer hlayer
    rcases layers_of_no_files hlayer with rfl | rfl
    · exact .inl (AList.lookup_empty key)
    · exact .inr (lookup_envOverrides_entries hlookup hkey)
  · exact ⟨envOverrides env', by simp [layers], fun key hkey =>
      lookup_envOverrides_entries hlookup hkey⟩

/-- Without files, the URL and the version come from their variables. -/
theorem lookup_of_loadConfig {config : Config}
    (h : loadConfig P.serde P.machine ∅ env (fun _ => none) = .ok config) :
    env.lookup "TOPDESK_MCP_URL" = some config.url ∧
      (env.lookup "TOPDESK_MCP_API_VERSION" = some config.apiVersion ∨
        config.apiVersion = "general-1.2.0") := by
  have hmap : Config.fromMap (mergeLayers (layers P env fun _ => none)) = some config := by
    unfold layers
    rw [loadConfig] at h
    split at h
    · rename_i config' hconfig'
      rw [hconfig', Except.ok.inj h]
    · simp at h
  have hvariable : ∀ key suffix text, envSuffixes.lookup key = some suffix → key ∉ numericKeys →
      (mergeLayers (layers P env fun _ => none)).lookup key = some (.string text) →
      env.lookup (envVariable suffix) = some text := by
    intro key suffix text hsuffix hnumeric hlookup
    rw [lookup_mergeLayers] at hlookup
    obtain ⟨layer, hlayer, hfound⟩ := List.exists_of_findSome?_eq_some hlookup
    rcases layers_of_no_files hlayer with rfl | rfl
    · simp at hfound
    · rw [lookup_envOverrides, hsuffix, Option.bind_some, Option.map_eq_some_iff] at hfound
      obtain ⟨value, hvalue, hparse⟩ := hfound
      rw [parseEnvValue, if_neg hnumeric] at hparse
      rw [hvalue, Json.Value.string.inj hparse]
  obtain ⟨hurl, hversion⟩ := Config.lookup_of_fromMap hmap
  refine ⟨hvariable "url" "URL" _ (by decide) (by decide) hurl, ?_⟩
  exact hversion.imp_left fun h => hvariable "api_version" "API_VERSION" _ (by decide) (by decide) h

/-- A value that is read from the file has no line break. -/
theorem not_reproduces_dotEnv (hclap : P.clap.Lawful)
    (h : '\n' ∈ s.url.toList ∨ '\n' ∈ s.apiVersion.toList) : ¬ Reproduces P s a .dotEnv := by
  rintro ⟨out, hout, hruns⟩
  rw [output_dotEnv] at hout
  obtain rfl := Option.some.inj hout
  have hargs : ["config"] ∈ fileRuns s.transport := by simp [fileRuns]
  obtain ⟨config, hconfig, hurl, -, hversion, -⟩ := hruns ["config"] hargs
  obtain ⟨env', hrun, henv'⟩ := runWith_fileRuns
    (Shell.assignments (dotEnvContents P s a)) (fun _ => none) hclap hargs
  obtain ⟨hfromUrl, hfromVersion⟩ := lookup_of_loadConfig (Option.some.inj (hrun.symm.trans hconfig))
  -- the transport is not one of the two variables
  have hsame : ∀ key, key ≠ "TOPDESK_MCP_TRANSPORT" →
      env'.lookup key = (Shell.assignments (dotEnvContents P s a)).lookup key := by
    intro key hkey
    rcases henv' with rfl | rfl
    · rfl
    · exact AList.lookup_insert_ne hkey
  rw [hsame _ (by decide)] at hfromUrl hfromVersion
  rcases h with h | h
  · rw [← hurl] at h
    exact Shell.newline_notMem_of_lookup hfromUrl h
  · rw [← hversion] at h
    rcases hfromVersion with hlookup | hdefault
    · exact Shell.newline_notMem_of_lookup hlookup h
    · rw [hdefault] at h
      exact absurd h (by decide)

/-! ## The YAML files -/

theorem fields_keys_nodup (s : Settings) : ((fields s).map (·.1)).Nodup := by
  show ["url", "auth_method", "api_version", "transport"].Nodup
  decide

/-- Where a choice has its file written. -/
def yamlPath (P : Platform) : Choice → String
  | .globalYaml => P.machine.home ++ "/.topdesk-mcp/config.yml"
  | _ => P.machine.cwd ++ "/topdesk-mcp.config.yml"

/-- ... is where the program looks for it. -/
theorem yamlPath_mem (P : Platform) (choice : Choice) : yamlPath P choice ∈ P.machine.configFiles := by
  have hlocal : P.machine.cwd ++ "/topdesk-mcp.config.yml" = P.machine.cwd ++ "/" ++ localConfigFile := by
    rw [String.append_assoc]
    rfl
  have hglobal : P.machine.home ++ "/.topdesk-mcp/config.yml" =
      P.machine.home ++ "/" ++ configDirName ++ "/config.yml" := by
    rw [String.append_assoc, String.append_assoc]
    rfl
  cases choice <;> simp [yamlPath, Machine.configFiles, hlocal, hglobal]

section Labels

variable (order : HashOrder) (toYaml : Json.Value → Option (List Char)) (env : StringMap)
  (configFields : Json.Value) (localDir globalConfig : String)

theorem persist_globalYaml :
    persistSelectionAt order toYaml Choice.globalYaml.label env configFields localDir globalConfig =
      (toYaml configFields).map fun yaml => some ⟨globalConfig, yaml⟩ := by
  rw [persistSelectionAt, if_neg (by decide), if_pos (by decide)]

theorem persist_localYaml :
    persistSelectionAt order toYaml Choice.localYaml.label env configFields localDir globalConfig =
      (toYaml configFields).map fun yaml => some ⟨localDir ++ "/topdesk-mcp.config.yml", yaml⟩ := by
  rw [persistSelectionAt, if_neg (by decide), if_neg (by decide), if_pos (by decide)]

end Labels

theorem output_yaml {choice : Choice} (hchoice : choice = .globalYaml ∨ choice = .localYaml)
    {yaml : List Char}
    (hyaml : P.serde.toYaml (.object ((fields s).map fun e => (e.1, .string e.2))) = some yaml) :
    output P s a choice =
      some ⟨∅, onlyFile ⟨yamlPath P choice, yaml⟩, fileRuns s.transport⟩ := by
  have hsetup : setup P.order P.serde.toYaml (choices P s choice) a.username a.password =
      some (some ⟨yamlPath P choice, yaml⟩) := by
    rw [setup, buildRuntimeSettings_eq]
    rcases hchoice with rfl | rfl
    · exact (persist_globalYaml ..).trans (congrArg (Option.map _) hyaml)
    · exact (persist_localYaml ..).trans (congrArg (Option.map _) hyaml)
  unfold output
  rw [hsetup]
  rcases hchoice with rfl | rfl <;> rfl

/-- The transport may be set on the way. -/
theorem lookup_envOverrides_transport {env : StringMap}
    (henv : env = ∅ ∨ env = (∅ : StringMap).insert "TOPDESK_MCP_TRANSPORT" s.transport.toStr)
    {key : String} (hkey : key ∈ envSuffixes.map (·.1)) :
    (envOverrides env).lookup key = none ∨
      (envOverrides env).lookup key = ((fields s).lookup key).map .string := by
  rw [lookup_envOverrides]
  simp only [envSuffixes, List.map_cons, List.map_nil, List.mem_cons, List.not_mem_nil,
    or_false] at hkey
  rcases henv with rfl | rfl
  · left
    simp
  · rcases hkey with rfl | rfl | rfl | rfl | rfl | rfl | rfl | rfl | rfl | rfl | rfl | rfl
    all_goals first | exact .inl rfl | exact .inr rfl

theorem reproduces_yaml (hclap : P.clap.Lawful) (hserde : P.serde.Lawful) {choice : Choice}
    (hchoice : choice = .globalYaml ∨ choice = .localYaml) : Reproduces P s a choice := by
  obtain ⟨yaml, htoYaml, hread⟩ := hserde.readYamlIfExists (fields_keys_nodup s)
  refine ⟨_, output_yaml hchoice htoYaml, ?_⟩
  intro args hargs
  obtain ⟨env', hrun, henv'⟩ := runWith_fileRuns ∅
    (onlyFile ⟨yamlPath P choice, yaml⟩) hclap hargs
  refine ⟨config s, ?_, rfl, rfl, rfl, fun _ => rfl⟩
  rw [hrun, loadConfig_eq (s := s)]
  · intro key hkey layer hlayer
    simp only [layers, List.mem_cons, List.mem_map] at hlayer
    rcases hlayer with rfl | rfl | ⟨path, -, rfl⟩
    · exact .inl (AList.lookup_empty key)
    · exact lookup_envOverrides_transport henv' hkey
    · by_cases hpath : path = yamlPath P choice
      · exact .inr (hread _ path (if_pos hpath) key)
      · left
        rw [readYamlIfExists, onlyFile, if_neg hpath]
        exact AList.lookup_empty key
  · refine ⟨_, ?_, fun key _ => hread (onlyFile ⟨yamlPath P choice, yaml⟩) (yamlPath P choice)
      (if_pos rfl) key⟩
    exact List.mem_cons_of_mem _ (List.mem_cons_of_mem _
      (List.mem_map_of_mem (yamlPath_mem P choice)))

/-! ## The command line -/

/-- The flag of a variable is a word, and not one that options may look like. -/
theorem flag_of_entry {e : String × String} (he : e ∈ entries s a) : flagName e.1 ≠ "" ∧
    '=' ∉ (flagName e.1).toList ∧ ("--" ++ flagName e.1).toList.all Shell.isPlain = true := by
  have hkey : e.1 ∈ (entries s a).map (·.1) := List.mem_map.mpr ⟨e, he, rfl⟩
  have hall : ∀ key ∈ ["TOPDESK_MCP_PASSWORD", "TOPDESK_MCP_USERNAME", "TOPDESK_MCP_TRANSPORT",
      "TOPDESK_MCP_API_VERSION", "TOPDESK_MCP_AUTH_METHOD", "TOPDESK_MCP_URL"],
      flagName key ≠ "" ∧ '=' ∉ (flagName key).toList ∧
        ("--" ++ flagName key).toList.all Shell.isPlain = true := by decide
  exact hall e.1 hkey

theorem intercalate_cons_eq_append {α : Type} (sep first : List α) (rest : List (List α)) :
    ∃ more, sep.intercalate (first :: rest) = first ++ more := by
  cases rest with
  | nil => exact ⟨[], by simp⟩
  | cons next rest =>
      refine ⟨sep ++ sep.intercalate (next :: rest), ?_⟩
      rw [List.intercalate_cons_cons, List.append_assoc]

/-- The line begins with the program, the command and a flag. -/
theorem cliInvocation_eq (P : Platform) (s : Settings) (a : Answers) : ∃ e ∈ entries s a, ∃ rest,
    cliInvocation P.order P.unicode (entryMap P s a) = "topdesk-mcp".toList ++
      ' ' :: ("start".toList ++ ' ' :: (("--" ++ flagName e.1).toList ++ ' ' :: rest)) := by
  have hperm := entryMap_perm P s a
  cases hiter : P.order.iter (entryMap P s a) with
  | nil =>
      have hlength := hperm.length_eq
      rw [hiter] at hlength
      simp [entries] at hlength
  | cons e rest =>
      have hmem : e ∈ entries s a := by
        rw [hiter] at hperm
        exact hperm.mem_iff.mp List.mem_cons_self
      have hstart : "topdesk-mcp start ".toList =
          "topdesk-mcp".toList ++ ' ' :: ("start".toList ++ [' ']) := by decide
      obtain ⟨more, hmore⟩ := intercalate_cons_eq_append [' '] (cliFlag P.unicode e)
        (rest.map (cliFlag P.unicode))
      have hassoc : ∀ program command dashes name value more : List Char,
          (program ++ ' ' :: (command ++ [' '])) ++ ((dashes ++ name ++ ' ' :: value) ++ more) =
            program ++ ' ' :: (command ++ ' ' :: ((dashes ++ name) ++ ' ' :: (value ++ more))) := by
        simp
      refine ⟨e, hmem, debugStr P.unicode e.2 ++ more, ?_⟩
      unfold cliInvocation
      rw [hiter, List.map_cons, hmore, cliFlag, String.toList_append, hstart]
      exact hassoc ..

theorem words_cliInvocation {words : List String}
    (h : Shell.words (cliInvocation P.order P.unicode (entryMap P s a)) = some words) :
    ∃ e ∈ entries s a, ∃ more, words = "topdesk-mcp" :: "start" :: ("--" ++ flagName e.1) :: more := by
  obtain ⟨e, he, rest, hline⟩ := cliInvocation_eq P s a
  have hplain := (flag_of_entry he).2.2
  rw [hline, Shell.words_cons (by decide) (by decide), Shell.words_cons (by decide) (by decide),
    Shell.words_cons (by simp) hplain] at h
  simp only [Option.map_map, Option.map_eq_some_iff, Function.comp_apply,
    String.ofList_toList] at h
  obtain ⟨more, -, rfl⟩ := h
  exact ⟨e, he, more, rfl⟩

/-- `start` takes no such flag. -/
theorem not_reproduces_cli (hclap : P.clap.Lawful) : ¬ Reproduces P s a .cli := by
  rintro ⟨out, hout, hruns⟩
  have hsettings : (buildRuntimeSettings P.order s.url s.authMethod s.apiVersion s.transport
      (promptCredentials a.username a.password)).1 = entryMap P s a :=
    congrArg Prod.fst (buildRuntimeSettings_eq P.order (choices P s .dotEnv) a.username a.password)
  unfold output at hout
  obtain ⟨words, hwords, rfl⟩ := Option.map_eq_some_iff.mp hout
  rw [hsettings] at hwords
  obtain ⟨e, he, more, rfl⟩ := words_cliInvocation hwords
  obtain ⟨hne, hequals, -⟩ := flag_of_entry he
  have hrejected : P.clap.parse commands ("start" :: ("--" ++ flagName e.1) :: more) = none :=
    hclap.unknownOption ⟨"start", [], []⟩ (by simp [commands]) _ more hne hequals (by simp)
  obtain ⟨config, hconfig, -⟩ := hruns _ (List.mem_singleton_self _)
  rw [runWith, List.tail_cons, hrejected] at hconfig
  simp at hconfig

/-- **Persistence.** Of the four choices, the YAML files always bring the program back to the
settings, the `.env` file does if and only if neither the URL nor the version has a line break,
and the printed command line never does. -/
theorem reproduces_iff (P : Platform) (s : Settings) (a : Answers) (choice : Choice)
    (hclap : P.clap.Lawful) (hserde : P.serde.Lawful) :
    Reproduces P s a choice ↔ Usable s choice := by
  cases choice with
  | dotEnv =>
      constructor
      · intro h
        by_contra hnot
        exact not_reproduces_dotEnv hclap (by simpa [Usable, or_iff_not_imp_left] using hnot) h
      · intro h
        exact reproduces_dotEnv hclap h.1 h.2
  | globalYaml => exact ⟨fun _ => trivial, fun _ => reproduces_yaml hclap hserde (.inl rfl)⟩
  | localYaml => exact ⟨fun _ => trivial, fun _ => reproduces_yaml hclap hserde (.inr rfl)⟩
  | cli => exact ⟨fun h => not_reproduces_cli hclap h, fun h => h.elim⟩

/-! ## An operator's settings -/

namespace Alice

/-- Reads a command without arguments, and nothing else. -/
def clap : Clap where
  parse grammar args := match args with
    | [name] =>
        if grammar.any fun sub => sub.name == name && sub.positionals.isEmpty then some ⟨name, []⟩
        else none
    | _ => none

theorem clap_lawful : clap.Lawful where
  bare sub hsub hpositionals := by
    apply if_pos
    rw [List.any_eq_true]
    exact ⟨sub, hsub, by simp [hpositionals]⟩
  unknownOption _ _ _ _ _ _ _ := rfl

/-- An object of strings in JSON, which YAML includes. -/
def serde : Serde where
  toYaml value := match value with
    | .object members => some (Json.writeObject (members.filterMap fun e =>
        e.2.asStr.map fun text => (e.1, text)))
    | _ => none
  fromYaml text := (Json.parseObject text).map fun members =>
    .object (members.map fun e => (e.1, .string e.2))
  fromValueError _ := "missing field"

theorem serde_lawful : serde.Lawful := by
  intro members _
  refine ⟨Json.writeObject members, _, ?_, ?_, .refl _⟩
  · show some (Json.writeObject _) = _
    rw [List.filterMap_map]
    congr 2
    exact List.filterMap_some
  · show (Json.parseObject _).map _ = _
    rw [Json.parseObject_write]
    rfl

def platform : Platform where
  clap := clap
  serde := serde
  order := listOrder
  unicode c := [c]
  machine := ⟨"/srv/desk", "/home/alice", "/usr/local/bin"⟩

def settings : Settings := ⟨"https://example.topdesk.net", .basic, "incident-4.2.6", .http⟩

def answers : Answers := ⟨"alice", "s3cr3t", by decide, by decide⟩

/-- The printed command line is not accepted. -/
theorem reproduces_fails : ¬ Reproduces platform settings answers .cli :=
  not_reproduces_cli clap_lawful

/-- The files are. -/
theorem reproduces_iff_files : Reproduces platform settings answers .dotEnv ∧
    Reproduces platform settings answers .globalYaml := by
  constructor
  · apply (reproduces_iff platform settings answers .dotEnv clap_lawful serde_lawful).mpr
    exact ⟨by decide, by decide⟩
  · exact (reproduces_iff platform settings answers .globalYaml clap_lawful serde_lawful).mpr trivial

end Alice

end TopdeskMcp.Theorems.Persistence
