import TopdeskMcp.Cli.SetupWizard
import TopdeskMcp.Cli.Versions
import TopdeskMcp.Data.StorePath
import TopdeskMcp.Lib.Table
import TopdeskMcp.Prompts.Router
import TopdeskMcp.Theorems.Frozen
import TopdeskMcp.Validation.Validator

/-!
# What the program tells its user to do

The error about a version that is not known says to run `versions`, and a prompt for another catalog
says to restart the server with another version.

* `versions` has a line for just the versions that this error is not about, and those can be used
  (`listed_versions_work`);
* a prompt says that its catalog is not there just if it is not, and after a restart with one of the
  versions it names it is there, and nothing else has changed (`restart_works`).
-/

namespace TopdeskMcp.Theorems.Advice

open TopdeskMcp Prompts Versions

open TopdeskMcp.StorePath (Host Faults Call resolveStorePath unknownVersion)

/-! ## Versions -/

/-- The versions that are listed. -/
def labels : List String := knownVersions.map (·.label)

theorem labels_eq : labels = versionStoreFiles.map (·.1) := rfl

theorem labels_eq_schemas : labels = Validator.schemaFiles.map (·.1) := rfl

theorem labels_eq_choices : Setup.apiVersionChoices.map Setup.promptApiVersion = labels := rfl

theorem isSome_storeFile_iff {v : String} : (storeFile v).isSome ↔ v ∈ labels := by
  rw [storeFile, Option.isSome_map, List.find?_isSome, labels_eq, List.mem_map]
  simp only [beq_iff_eq]

theorem isSome_schemas_iff {v : String} : (Validator.schemasZstFor v).isSome ↔ v ∈ labels := by
  rw [Validator.schemasZstFor, List.lookup_isSome_iff, labels_eq_schemas, List.mem_map]
  simp only [beq_iff_eq, @eq_comm _ v]

/-! ## The lines of `versions` -/

section

variable {row : VersionRow} {v : String} {serde : Serde} {machine : Machine} {env : StringMap}
  {files : TextFiles}

/-- The version of a line. -/
def nameOf (line : String) : String := String.ofList (line.toList.takeWhile (· != ' '))

def MarkedActive (line : String) : Prop := "active)".toList <:+ line.toList

/-- What is after the version, by whether it is the default and whether it is active. -/
def marks : Bool → Bool → String
  | false, false => ""
  | false, true => " (active)"
  | true, false => " (default)"
  | true, true => " (default, active)"

theorem line_eq (row : VersionRow) (v : String) :
    row.line v = row.label ++ marks row.isDefault (row.label = v) := by
  unfold VersionRow.line VersionRow.markers
  by_cases hactive : row.label = v <;> cases row.isDefault <;>
    simp [hactive, marks, String.append_assoc]

theorem nameOf_line (h : row ∈ knownVersions) : nameOf (row.line v) = row.label := by
  have hlabel : ∀ row ∈ knownVersions, row.label.toList.all (· != ' ') = true := by decide
  have hmarks : ∀ isDefault active : Bool,
      (marks isDefault active).toList.takeWhile (· != ' ') = [] := by decide
  rw [nameOf, line_eq, String.toList_append,
    List.takeWhile_append_of_pos (List.all_eq_true.mp (hlabel row h)), hmarks, List.append_nil,
    String.ofList_toList]

theorem markedActive_line_iff (h : row ∈ knownVersions) :
    MarkedActive (row.line v) ↔ row.label = v := by
  have hplain : ∀ row ∈ knownVersions, ¬ "active)".toList <:+ row.label.toList := by decide
  have hactive : ∀ isDefault : Bool, "active)".toList <:+ (marks isDefault true).toList := by decide
  have hdefault : ¬ "active)".toList <:+ (marks true false).toList := by decide
  have hlength : "active)".toList.length ≤ (marks true false).toList.length := by decide
  rw [MarkedActive, line_eq, String.toList_append]
  by_cases heq : row.label = v
  · rw [decide_eq_true heq]
    exact iff_of_true ((hactive _).trans (List.suffix_append ..)) heq
  · rw [decide_eq_false heq]
    refine iff_of_false (fun hsuffix => ?_) heq
    cases hrow : row.isDefault with
    | false =>
        rw [hrow] at hsuffix
        exact hplain row h (by simpa [marks] using hsuffix)
    | true =>
        rw [hrow] at hsuffix
        exact hdefault (List.suffix_of_suffix_length_le hsuffix (List.suffix_append ..) hlength)

theorem names_run : (Versions.run serde machine env files).map nameOf = labels := by
  rw [Versions.run, List.map_map]
  exact List.map_congr_left fun row hrow => nameOf_line hrow

/-- The version of the line that is marked is the one that other commands use. -/
theorem markedActive_iff {line : String} (h : line ∈ Versions.run serde machine env files) :
    MarkedActive line ↔ ∃ config, loadConfig serde machine ∅ env files = .ok config ∧
      config.apiVersion = nameOf line := by
  obtain ⟨row, hrow, rfl⟩ := List.mem_map.mp h
  rw [markedActive_line_iff hrow, nameOf_line hrow, activeVersion]
  cases loadConfig serde machine ∅ env files with
  | ok config => simp [eq_comm]
  | error err =>
      have hnonempty : ∀ row ∈ knownVersions, row.label ≠ "" := by decide
      simpa using hnonempty row hrow

end

section

variable {host : Host} {faults : Faults} {s s₀ : StorePath.State} {calls : List Call} {v : String}

/-- The paths that are remembered are those of their versions. -/
def Extracted (s : StorePath.State) : Prop :=
  ∀ v path, s.extracted v = some path → storeFile v = some path

/-- What a call that has the bytes of a store ends with, and what is remembered then. -/
theorem extract_spec (host : Host) (faults : Faults) (v file : String) (decompressed : Bytes)
    (s : StorePath.State) :
    (∀ err, (StorePath.extract host faults v file decompressed s).1 = .error err →
      err.toList.head? = some 'f') ∧
    ∀ v' path, (StorePath.extract host faults v file decompressed s).2.extracted v' = some path →
      s.extracted v' = some path ∨ v' = v ∧ path = file := by
  unfold StorePath.extract
  cases faults.write with
  | notCreated => exact ⟨by simp, fun v' path h => .inl h⟩
  | cut count => exact ⟨by simp, fun v' path h => .inl h⟩
  | written =>
      by_cases hmoves : StorePath.moves faults.renamed 0 5 = true
      · simp only [hmoves, if_true]
        refine ⟨by simp, fun v' path h => ?_⟩
        by_cases heq : v' = v
        · subst heq
          rw [Function.update_self] at h
          exact .inr ⟨rfl, (Option.some.inj h).symm⟩
        · rw [Function.update_of_ne heq] at h
          exact .inl h
      · simp only [hmoves]
        exact ⟨by simp, fun v' path h => .inl h⟩

/-- A version that has a file is not an unknown one, whatever fails. -/
theorem resolve_of_storeFile {file : String} (hs : Extracted s) (hfile : storeFile v = some file) :
    (∀ err, (resolveStorePath host faults v s).1 = .error err → err.toList.head? ≠ some 'u') ∧
      Extracted (resolveStorePath host faults v s).2 := by
  unfold resolveStorePath
  split
  · exact ⟨by simp, hs⟩
  · simp only [hfile]
    split
    · exact ⟨by simp, hs⟩
    · split
      · split
        · exact ⟨by simp, hs⟩
        · rename_i decompressed _
          obtain ⟨herr, hextracted⟩ := extract_spec host faults v file decompressed s
          refine ⟨fun err h => by simp [herr err h], fun v' path h => ?_⟩
          rcases hextracted v' path h with hbefore | ⟨rfl, rfl⟩
          · exact hs v' path hbefore
          · exact hfile
      · exact ⟨by simp, hs⟩

/-- Without a file there is just the one error. -/
theorem resolve_of_no_storeFile (hs : Extracted s) (hfile : storeFile v = none) :
    resolveStorePath host faults v s = (.error (unknownVersion v), s) := by
  unfold resolveStorePath
  cases hextracted : s.extracted v with
  | some path =>
      rw [hs v path hextracted] at hfile
      simp at hfile
  | none => simp only [hfile]

theorem extracted_inductive : (storePath host).Inductive (fun _ _ => True) Extracted := by
  intro s call s' hs _ hstep
  obtain rfl := Option.some.inj hstep
  cases hfile : storeFile call.apiVersion with
  | none =>
      rw [resolve_of_no_storeFile hs hfile]
      exact hs
  | some file => exact (resolve_of_storeFile hs hfile).2

theorem extracted_run (h₀ : (storePath host).init s₀)
    (hrun : (storePath host).run s₀ calls = some s) : Extracted s := by
  refine extracted_inductive.reach (fun v path h => ?_) hrun
  rw [h₀ v] at h
  simp at h

theorem head_unknownVersion : (unknownVersion v).toList.head? = some 'u' := by
  have hhead : "unknown api_version '".toList.head? = some 'u' := rfl
  unfold unknownVersion
  simp only [String.toList_append, List.head?_append, hhead]
  rfl

/-- No step of a call fails. -/
def healthy : Faults where
  dirCreated := true
  write := .written
  renamed _ := true

theorem resolve_healthy {file : String} (hs : Extracted s) (hfile : storeFile v = some file)
    (hpayload : (host.payload v).isSome) :
    (resolveStorePath host healthy v s).1 = .ok file := by
  obtain ⟨decompressed, hdecompressed⟩ := Option.isSome_iff_exists.mp hpayload
  obtain ⟨bytes, hbytes, hdecode⟩ := Option.bind_eq_some_iff.mp hdecompressed
  unfold resolveStorePath
  cases hextracted : s.extracted v with
  | some path =>
      obtain rfl := Option.some.inj (hfile.symm.trans (hs v path hextracted))
      rfl
  | none =>
      simp only [hfile, hbytes, hdecode]
      rfl

/-- **The listed versions.** `versions` has a line for each of the versions that the setup offers.
Whatever has been asked of a process before and has failed, it says that a version is not known just
if there is no line for it. Each version with a line has schemas, and where its store is embedded a
call that nothing gets in the way of finds it; it is marked as active just if it is the one that is
configured. -/
theorem listed_versions_work (h₀ : (storePath host).init s₀)
    (hrun : (storePath host).run s₀ calls = some s) (serde : Serde) (machine : Machine)
    (env : StringMap) (files : TextFiles) :
    Setup.apiVersionChoices.map Setup.promptApiVersion =
      (Versions.run serde machine env files).map nameOf ∧
    (∀ faults v, (resolveStorePath host faults v s).1 = .error (unknownVersion v) ↔
      ∀ line ∈ Versions.run serde machine env files, nameOf line ≠ v) ∧
    ∀ line ∈ Versions.run serde machine env files,
      (Validator.schemasZstFor (nameOf line)).isSome ∧
      ((host.payload (nameOf line)).isSome → ∃ file, storeFile (nameOf line) = some file ∧
        (resolveStorePath host healthy (nameOf line) s).1 = .ok file) ∧
      (MarkedActive line ↔ ∃ config, loadConfig serde machine ∅ env files = .ok config ∧
        config.apiVersion = nameOf line) := by
  have hs := extracted_run h₀ hrun
  refine ⟨labels_eq_choices.trans names_run.symm, ?_, ?_⟩
  · intro faults v
    have hlisted : (∀ line ∈ Versions.run serde machine env files, nameOf line ≠ v) ↔
        storeFile v = none := by
      rw [← Option.not_isSome_iff_eq_none, isSome_storeFile_iff, ← names_run, List.mem_map]
      simp only [not_exists, not_and]
      rfl
    rw [hlisted]
    constructor
    · intro herr
      cases hfile : storeFile v with
      | none => rfl
      | some file => exact absurd head_unknownVersion ((resolve_of_storeFile hs hfile).1 _ herr)
    · intro hfile
      rw [resolve_of_no_storeFile hs hfile]
  · intro line hline
    have hlabel : nameOf line ∈ labels := by
      rw [← names_run]
      exact List.mem_map_of_mem hline
    obtain ⟨file, hfile⟩ := Option.isSome_iff_exists.mp (isSome_storeFile_iff.mpr hlabel)
    exact ⟨isSome_schemas_iff.mpr hlabel, fun hpayload =>
      ⟨file, hfile, resolve_healthy hs hfile hpayload⟩, markedActive_iff hline⟩

end

namespace Misspelt

open Cascade.Served (serde machine env files)

/-- Every store is embedded, as a single byte. -/
def host : Host := ⟨7, "/tmp/topdesk-mcp-store", fun _ => some [1], some⟩

def started : StorePath.State := ⟨fun _ => none, fun _ => none, 0⟩

/-- A version that there is not, and one for which there is no space. -/
def calls : List Call :=
  [⟨healthy, "incident-4.2"⟩, ⟨{ healthy with write := .notCreated }, "incident-4.2.6"⟩]

theorem listed_versions_work_misspelt : ∃ s, (storePath host).run started calls = some s ∧
    (∀ line ∈ Versions.run serde machine env files, nameOf line ≠ "incident-4.2") ∧
    (resolveStorePath host healthy "incident-4.2.6" s).1 = .ok "mcp_store_vincident-4.2.6.db" := by
  have h₀ : (storePath host).init started := fun _ => rfl
  have hrun : (storePath host).run started calls = some _ := rfl
  obtain ⟨-, hunknown, hlisted⟩ := listed_versions_work h₀ hrun serde machine env files
  have hlabel : "incident-4.2.6" ∈ (Versions.run serde machine env files).map nameOf := by
    rw [names_run]
    decide
  obtain ⟨line, hline, hname⟩ := List.mem_map.mp hlabel
  obtain ⟨-, hfound, -⟩ := hlisted line hline
  rw [hname] at hfound
  obtain ⟨file, hfile, hok⟩ := hfound rfl
  obtain rfl := Option.some.inj hfile
  exact ⟨_, rfl, (hunknown healthy "incident-4.2").mp rfl, hok⟩

end Misspelt

/-! ## Prompts -/

section

variable {assets : String → String} {prompt : WorkflowPrompt} {v : String} {context : Option String}

/-- The text begins with the warning that the catalog is another one. -/
def Warns (text : String) : Prop := "## Active catalog check — MISMATCH".toList <+: text.toList

theorem warns_render_iff :
    Warns (prompt.render assets v context) ↔ v ∉ prompt.expected := by
  unfold Warns WorkflowPrompt.render catalogCheckBlock
  by_cases hmem : v ∈ prompt.expected
  · simp only [hmem, if_true, not_true_eq_false, iff_false, String.append_assoc,
      String.toList_append]
    rintro ⟨rest, hrest⟩
    simp at hrest
  · simp only [hmem, if_false, not_false_eq_true, iff_true, String.append_assoc,
      String.toList_append]
    have hline : "## Active catalog check — MISMATCH\n\n".toList =
      "## Active catalog check — MISMATCH".toList ++ "\n\n".toList := rfl
    rw [hline, List.append_assoc]
    exact List.prefix_append ..

theorem getPrompt_of_mem (h : prompt ∈ promptRouter) :
    getPrompt assets v prompt.name context = some (prompt.render assets v context) := by
  have hmenu : ∀ prompt ∈ promptRouter, prompt.name ≠ "topdesk-menu" := by decide
  have hfind : ∀ prompt ∈ promptRouter,
      promptRouter.find? (·.name = prompt.name) = some prompt := by
    decide
  rw [getPrompt, if_neg (hmenu prompt h), hfind prompt h, Option.map_some]

theorem listed_of_expected (h : prompt ∈ promptRouter) :
    ∀ label ∈ prompt.expected, label ∈ labels := by
  have hall : ∀ prompt ∈ promptRouter, ∀ label ∈ prompt.expected, label ∈ labels := by decide
  exact hall prompt h

end

/-! ## A restart -/

section

variable {serde : Serde} {machine : Machine} {env env' : StringMap} {files : TextFiles}
  {command : Command} {config : Config} {prompt : WorkflowPrompt} {label : String}

/-- The variable has the label, and the others are as they were. -/
def Restarted (label : String) (env env' : StringMap) : Prop :=
  ∀ name, env'.lookup name =
    if name = "TOPDESK_MCP_API_VERSION" then some label else env.lookup name

theorem restarted_insert (env : StringMap) (label : String) :
    Restarted label env (env.insert "TOPDESK_MCP_API_VERSION" label) := by
  intro name
  by_cases heq : name = "TOPDESK_MCP_API_VERSION"
  · subst heq
    rw [if_pos rfl, AList.lookup_insert]
  · rw [if_neg heq, AList.lookup_insert_ne heq]

theorem Restarted.setVar (h : Restarted label env env') {name : String}
    (hname : name ≠ "TOPDESK_MCP_API_VERSION") (value : Option String) :
    Restarted label (Command.setVar env name value) (Command.setVar env' name value) := by
  intro other
  cases value with
  | none => exact h other
  | some value =>
      by_cases heq : other = name
      · subst heq
        rw [if_neg hname, Cascade.lookup_setVar, Cascade.lookup_setVar]
      · rw [Cascade.lookup_setVar_ne heq, Cascade.lookup_setVar_ne heq, h other]

/-- A command does not set this variable. -/
theorem Restarted.environment (h : Restarted label env env') (command : Command) :
    Restarted label (command.environment env) (command.environment env') := by
  cases command with
  | start => exact h.setVar (by decide) (some "stdio")
  | http host port corsAllow =>
      have htransport := h.setVar (by decide : "TOPDESK_MCP_TRANSPORT" ≠ _) (some "http")
      exact ((htransport.setVar (by decide) host).setVar (by decide) _).setVar (by decide) corsAllow
  | _ => exact h

theorem Restarted.envValue (h : Restarted label env env') {key : String}
    (hkey : key ≠ "api_version") : Cascade.envValue env' key = Cascade.envValue env key := by
  unfold Cascade.envValue
  cases hsuffix : envSuffixes.lookup key with
  | none => rfl
  | some suffix =>
      have hother : ∀ entry ∈ envSuffixes,
          entry.1 = "api_version" ∨ envVariable entry.2 ≠ "TOPDESK_MCP_API_VERSION" := by
        decide
      have hne := (hother (key, suffix) (Table.mem_of_lookup hsuffix)).resolve_left hkey
      rw [Option.bind_some, Option.bind_some, h (envVariable suffix), if_neg hne]

theorem Restarted.readField (h : Restarted label env env') {α : Type} {key : String}
    (hkey : key ≠ "api_version") (default : Option α) (read : Json.Value → Option α) :
    readField (Cascade.merged serde ⟨∅, env', machine, files⟩) key default read =
      readField (Cascade.merged serde ⟨∅, env, machine, files⟩) key default read := by
  unfold TopdeskMcp.readField
  rw [Cascade.lookup_merged, Cascade.lookup_merged, Cascade.values, Cascade.values,
    h.envValue hkey]

/-- All fields but the version are read as before. -/
theorem Restarted.reads (h : Restarted label env env')
    (hreads : Frozen.Reads (Cascade.merged serde ⟨∅, env, machine, files⟩) config) :
    Frozen.Reads (Cascade.merged serde ⟨∅, env', machine, files⟩)
      { config with apiVersion := label } where
  url := (h.readField (by decide) _ _).trans hreads.url
  authMethod := (h.readField (by decide) _ _).trans hreads.authMethod
  apiVersion := by
    have hlookup : (Cascade.merged serde ⟨∅, env', machine, files⟩).lookup "api_version" =
        some (parseEnvValue "api_version" label) :=
      Cascade.lookup_of_variable "api_version" rfl rfl (h "TOPDESK_MCP_API_VERSION")
    rw [Cascade.readField_of_variable hlookup, Cascade.parseEnvValue_of_notMem (by decide)]
    rfl
  logLevel := (h.readField (by decide) _ _).trans hreads.logLevel
  rateLimit := (h.readField (by decide) _ _).trans hreads.rateLimit
  timeoutMs := (h.readField (by decide) _ _).trans hreads.timeoutMs
  cacheSize := (h.readField (by decide) _ _).trans hreads.cacheSize
  retryAttempts := (h.readField (by decide) _ _).trans hreads.retryAttempts
  transport := (h.readField (by decide) _ _).trans hreads.transport
  host := (h.readField (by decide) _ _).trans hreads.host
  port := (h.readField (by decide) _ _).trans hreads.port
  corsAllow := (h.readField (by decide) _ _).trans hreads.corsAllow

theorem loaded_restarted (h : Restarted label env env')
    (hload : Command.loaded serde machine env files command = some (.ok config)) :
    Command.loaded serde machine env' files command =
      some (.ok { config with apiVersion := label }) := by
  have hagain : loadConfig serde machine ∅ (command.environment env) files = .ok config →
      loadConfig serde machine ∅ (command.environment env') files =
        .ok { config with apiVersion := label } := fun hbefore =>
    Frozen.loadConfig_eq_ok_iff.mpr
      ((h.environment command).reads (Frozen.loadConfig_eq_ok_iff.mp hbefore))
  cases command with
  | setup => simp [Command.loaded] at hload
  | version => simp [Command.loaded] at hload
  | versions => simp [Command.loaded] at hload
  | _ => exact congrArg some (hagain (Option.some.inj hload))

/-- **A restart.** What a prompt says of the catalog is so. If the server is started again with one
of the versions that the prompt names, by the variable, its configuration is the same but for the
version, and the prompt has its catalog. -/
theorem restart_works (hload : Command.loaded serde machine env files command = some (.ok config))
    (hprompt : prompt ∈ promptRouter) (assets : String → String) (context : Option String) :
    (∃ text, getPrompt assets config.apiVersion prompt.name context = some text ∧
      (Warns text ↔ config.apiVersion ∉ prompt.expected)) ∧
    ∀ label ∈ prompt.expected, label ∈ labels ∧ ∀ env', Restarted label env env' →
      Command.loaded serde machine env' files command =
        some (.ok { config with apiVersion := label }) ∧
      ∃ text, getPrompt assets label prompt.name context = some text ∧ ¬ Warns text := by
  refine ⟨⟨_, getPrompt_of_mem hprompt, warns_render_iff⟩, fun label hlabel => ?_⟩
  refine ⟨listed_of_expected hprompt label hlabel, fun env' h => ⟨loaded_restarted h hload, ?_⟩⟩
  exact ⟨_, getPrompt_of_mem hprompt, fun hwarns => warns_render_iff.mp hwarns hlabel⟩

end

namespace Incidents

open Cascade.Served (serde machine env files given config loaded)

theorem restart_works_incidents :
    (∃ text, getPrompt id "general-1.2.0" "topdesk-incident-lifecycle" none = some text ∧
      Warns text) ∧
    Command.loaded serde machine (env.insert "TOPDESK_MCP_API_VERSION" "incident-4.2.6") files
      given.command = some (.ok { config with apiVersion := "incident-4.2.6" }) := by
  have hprompt : incidentLifecycle ∈ promptRouter := by decide
  obtain ⟨⟨text, htext, hwarns⟩, hrestart⟩ := restart_works loaded hprompt id none
  obtain ⟨-, hagain⟩ := hrestart "incident-4.2.6" (by decide)
  exact ⟨⟨text, htext, hwarns.mpr (by decide)⟩, (hagain _ (restarted_insert env _)).1⟩

end Incidents

end TopdeskMcp.Theorems.Advice
