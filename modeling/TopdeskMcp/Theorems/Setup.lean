import TopdeskMcp.Cli.SetupWizard

/-!
# What setup writes, for two sets of credentials

Setup promises that its files hold no credentials: for any two answers to the
credential prompts the same bytes are written, up to the order of the lines.
The YAML files keep the promise. The `.env` file is written from the whole
environment map, into which the credentials have been folded, so it keeps the
promise exactly when the two answers give the same lines.
-/

namespace TopdeskMcp.Theorems.Setup

open TopdeskMcp TopdeskMcp.Setup

def lines (contents : List Char) : List (List Char) := contents.splitOn '\n'

/-- The same file with the same lines in some order, or no file in both. -/
def SameUpToLineOrder : Option (Option Written) → Option (Option Written) → Prop
  | some (some a), some (some b) => a.path = b.path ∧ (lines a.contents).Perm (lines b.contents)
  | some none, some none | none, none => True
  | _, _ => False

theorem sameUpToLineOrder_refl (result : Option (Option Written)) :
    SameUpToLineOrder result result := by
  rcases result with - | - | written
  · trivial
  · trivial
  · exact ⟨rfl, .refl _⟩

/-- Everything the operator chooses besides the credentials, and where files go. -/
structure Choices where
  url : String
  authMethod : AuthMethod
  apiVersion : String
  transport : Transport
  selection : String
  localDir : String
  globalConfig : String

/-- `build_runtime_settings` followed by `persist_selection_at`. -/
def setup (order : HashOrder) (toYaml : Json.Value → Option (List Char)) (c : Choices)
    (username password : String) : Option (Option Written) :=
  let settings := buildRuntimeSettings order c.url c.authMethod c.apiVersion c.transport
    (promptCredentials username password)
  persistSelectionAt order toYaml c.selection settings.1 settings.2 c.localDir c.globalConfig

/-! ## The map and the fields -/

/-- The environment variables that are no credentials. -/
def basePairs (c : Choices) : List (String × String) :=
  [("TOPDESK_MCP_TRANSPORT", c.transport.toStr), ("TOPDESK_MCP_API_VERSION", c.apiVersion),
   ("TOPDESK_MCP_AUTH_METHOD", c.authMethod.toStr), ("TOPDESK_MCP_URL", c.url)]

def credentialPairs (username password : String) : List (String × String) :=
  [("TOPDESK_MCP_PASSWORD", password), ("TOPDESK_MCP_USERNAME", username)]

def baseEnv (c : Choices) : StringMap :=
  ((((∅ : StringMap).insert "TOPDESK_MCP_URL" c.url).insert "TOPDESK_MCP_AUTH_METHOD"
    c.authMethod.toStr).insert "TOPDESK_MCP_API_VERSION" c.apiVersion).insert
    "TOPDESK_MCP_TRANSPORT" c.transport.toStr

theorem baseEnv_pairs (c : Choices) : (baseEnv c).pairs = basePairs c := rfl

theorem mem_baseEnv_iff {c : Choices} {key : String} : key ∈ baseEnv c ↔
    key ∈ ["TOPDESK_MCP_TRANSPORT", "TOPDESK_MCP_API_VERSION", "TOPDESK_MCP_AUTH_METHOD",
      "TOPDESK_MCP_URL"] := Iff.rfl

/-- The variable of a credential. -/
def variableOf (key : String) : String := envPrefix ++ toEnvKey key

theorem variableOf_username : variableOf "username" = "TOPDESK_MCP_USERNAME" := by decide

theorem variableOf_password : variableOf "password" = "TOPDESK_MCP_PASSWORD" := by decide

/-- The answers, in the order of the run. -/
theorem iter_perm (order : HashOrder) (username password : String) :
    (order.iter (promptCredentials username password)).Perm
      [("password", password), ("username", username)] := order.perm _

/-- The variables of the credentials are none of the others. -/
theorem variableOf_notMem (order : HashOrder) (c : Choices) {username password : String}
    {e : String × String} (he : e ∈ order.iter (promptCredentials username password)) :
    variableOf e.1 ∉ baseEnv c := by
  intro hmem
  have hlisted := mem_baseEnv_iff.mp hmem
  rcases List.mem_pair.mp ((iter_perm order username password).mem_iff.mp he) with rfl | rfl
  · rw [variableOf_password] at hlisted
    exact absurd hlisted (by decide)
  · rw [variableOf_username] at hlisted
    exact absurd hlisted (by decide)

/-- The map that `build_runtime_settings` makes. -/
def settingsEnv (order : HashOrder) (c : Choices) (username password : String) : StringMap :=
  (order.iter (promptCredentials username password)).foldl
    (fun env e => env.insert (variableOf e.1) e.2) (baseEnv c)

/-- The whole map, whatever the order of the run. -/
theorem settingsEnv_pairs (order : HashOrder) (c : Choices) (username password : String) :
    (settingsEnv order c username password).pairs.Perm
      (credentialPairs username password ++ basePairs c) := by
  have hperm := iter_perm order username password
  have hcredentials : ([("password", password), ("username", username)].map
      fun e => (variableOf e.1, e.2)) = credentialPairs username password := by
    simp [variableOf_username, variableOf_password, credentialPairs]
  rw [← hcredentials, ← baseEnv_pairs]
  refine (StringMap.pairs_foldl_insert variableOf ?_ fun e =>
    variableOf_notMem order c).trans ((hperm.map _).append (.refl _))
  refine (hperm.map _).nodup_iff.mpr ?_
  simp [variableOf_username, variableOf_password]

/-- The credentials do not reach the other variables. -/
theorem configField_settingsEnv (order : HashOrder) (c : Choices) (username password : String)
    (name : String) {key : String} (hkey : key ∈ baseEnv c) :
    configField (settingsEnv order c username password) name key =
      configField (baseEnv c) name key := by
  have hlookup : (settingsEnv order c username password).lookup key = (baseEnv c).lookup key :=
    StringMap.lookup_foldl_insert variableOf fun e he heq =>
      variableOf_notMem order c he (heq ▸ hkey)
  simp only [configField, hlookup]

/-- What `build_runtime_settings` returns: the map, and fields without credentials. -/
theorem buildRuntimeSettings_eq (order : HashOrder) (c : Choices) (username password : String) :
    buildRuntimeSettings order c.url c.authMethod c.apiVersion c.transport
        (promptCredentials username password) =
      (settingsEnv order c username password, .object
        [("url", .string c.url), ("auth_method", .string c.authMethod.toStr),
         ("api_version", .string c.apiVersion), ("transport", .string c.transport.toStr)]) := by
  show (settingsEnv order c username password, Json.Value.object
    [configField (settingsEnv order c username password) "url" "TOPDESK_MCP_URL",
     configField (settingsEnv order c username password) "auth_method" "TOPDESK_MCP_AUTH_METHOD",
     configField (settingsEnv order c username password) "api_version" "TOPDESK_MCP_API_VERSION",
     configField (settingsEnv order c username password) "transport" "TOPDESK_MCP_TRANSPORT"]) = _
  rw [configField_settingsEnv order c username password "url" (mem_baseEnv_iff.mpr (by decide)),
    configField_settingsEnv order c username password "auth_method"
      (mem_baseEnv_iff.mpr (by decide)),
    configField_settingsEnv order c username password "api_version"
      (mem_baseEnv_iff.mpr (by decide)),
    configField_settingsEnv order c username password "transport" (mem_baseEnv_iff.mpr (by decide))]
  rfl

/-! ## The lines of the `.env` file -/

/-- The lines of texts that are joined by line feeds and ended by one. -/
theorem lines_joined {texts : List (List Char)} (hne : texts ≠ []) :
    lines (['\n'].intercalate texts ++ ['\n']) = texts.flatMap lines ++ [[]] := by
  induction texts with
  | nil => exact absurd rfl hne
  | cons text texts ih =>
      cases texts with
      | nil =>
          rw [List.intercalate_singleton, lines, List.splitOn_append_cons_self]
          simp [lines]
      | cons next texts =>
          rw [List.intercalate_cons_cons, List.flatMap_cons, List.append_assoc,
            List.append_assoc text, List.append_assoc (lines text), ← ih (by simp)]
          exact List.splitOn_append_cons_self _ _

def credentialLines (username password : String) : List (List Char) :=
  (credentialPairs username password).flatMap fun e => lines (envLine e)

theorem dotEnv_lines (order : HashOrder) (c : Choices) (username password : String) :
    (lines (['\n'].intercalate ((order.iter (settingsEnv order c username password)).map envLine) ++
      ['\n'])).Perm (credentialLines username password ++
        ((basePairs c).flatMap (fun e => lines (envLine e)) ++ [[]])) := by
  have hperm := (order.perm _).trans (settingsEnv_pairs order c username password)
  -- the settings are there, so there is a line to end
  have hne : (order.iter (settingsEnv order c username password)).map envLine ≠ [] := by
    intro hnil
    have hlen := hperm.length_eq
    rw [List.map_eq_nil_iff.mp hnil] at hlen
    simp [credentialPairs, basePairs] at hlen
  rw [lines_joined hne, List.flatMap_map, ← List.append_assoc]
  refine List.Perm.append ?_ (.refl _)
  exact (hperm.flatMap_right _).trans (by rw [List.flatMap_append]; rfl)

/-- A variable with a value on one line is one line. -/
theorem lines_envLine {key value : String} (hkey : '\n' ∉ key.toList)
    (hvalue : '\n' ∉ value.toList) : lines (envLine (key, value)) = [envLine (key, value)] := by
  refine List.splitOn_eq_singleton ?_
  simp [envLine, hkey, hvalue]

/-- Answers without line breaks give the same lines only when they are the same. -/
theorem credentialLines_perm_iff {username password username' password' : String}
    (hu : '\n' ∉ username.toList) (hp : '\n' ∉ password.toList)
    (hu' : '\n' ∉ username'.toList) (hp' : '\n' ∉ password'.toList) :
    (credentialLines username password).Perm (credentialLines username' password') ↔
      username = username' ∧ password = password' := by
  have hlines : ∀ {u p : String}, '\n' ∉ u.toList → '\n' ∉ p.toList → credentialLines u p =
      [envLine ("TOPDESK_MCP_PASSWORD", p), envLine ("TOPDESK_MCP_USERNAME", u)] := by
    intro u p hu hp
    have hpassword : '\n' ∉ "TOPDESK_MCP_PASSWORD".toList := by decide
    have husername : '\n' ∉ "TOPDESK_MCP_USERNAME".toList := by decide
    simp only [credentialLines, credentialPairs, List.flatMap_cons, List.flatMap_nil,
      lines_envLine hpassword hp, lines_envLine husername hu, List.append_nil,
      List.singleton_append]
  -- the thirteenth character tells the two variables apart
  have hother : ∀ {u p : String},
      envLine ("TOPDESK_MCP_PASSWORD", p) ≠ envLine ("TOPDESK_MCP_USERNAME", u) := by
    intro u p heq
    simp [envLine] at heq
  have hvalue : ∀ {key v v' : String}, envLine (key, v) = envLine (key, v') → v = v' := by
    intro key v v' heq
    exact String.toList_inj.mp (by simpa [envLine] using heq)
  rw [hlines hu hp, hlines hu' hp']
  constructor
  · intro hperm
    have hpassword := hperm.mem_iff.mp (List.mem_cons_self ..)
    have husername := hperm.mem_iff.mp (List.mem_cons_of_mem _ (List.mem_cons_self ..))
    rcases List.mem_pair.mp hpassword with h | h
    · rcases List.mem_pair.mp husername with h' | h'
      · exact absurd h'.symm hother
      · exact ⟨hvalue h', hvalue h⟩
    · exact absurd h hother
  · rintro ⟨rfl, rfl⟩
    exact .refl _

/-- The files of two runs, by the lines of the answers. -/
theorem sameUpToLineOrder_setup_iff (order order' : HashOrder)
    (toYaml : Json.Value → Option (List Char)) (c : Choices)
    (username password username' password' : String) :
    SameUpToLineOrder (setup order toYaml c username password)
        (setup order' toYaml c username' password') ↔
      c.selection ≠ dotEnv ∨
        (credentialLines username password).Perm (credentialLines username' password') := by
  simp only [setup, buildRuntimeSettings_eq, persistSelectionAt]
  by_cases henv : c.selection = dotEnv
  · rw [if_pos henv, if_pos henv]
    simp only [SameUpToLineOrder, true_and, henv, ne_eq, not_true_eq_false, false_or]
    -- the lines of the settings are the same in both runs and cancel
    have h := dotEnv_lines order c username password
    have h' := dotEnv_lines order' c username' password'
    refine Iff.trans ?_ (List.perm_append_right_iff
      ((basePairs c).flatMap (fun e => lines (envLine e)) ++ [[]]))
    constructor
    · intro hsame
      exact (h.symm.trans hsame).trans h'
    · intro hsame
      exact (h.trans hsame).trans h'.symm
  · rw [if_neg henv, if_neg henv]
    exact ⟨fun _ => .inl henv, fun _ => sameUpToLineOrder_refl _⟩

/-- **Setup's files and the credentials.** For two runs that differ in nothing but
the credentials (and the order of their hash maps), the same files are written up
to the order of lines exactly when the choice is not the `.env` file or the
answers give the same lines, which for answers without line breaks means the
same answers. -/
theorem setup_files_same_iff (order order' : HashOrder)
    (toYaml : Json.Value → Option (List Char)) (c : Choices)
    (username password username' password' : String) :
    (SameUpToLineOrder (setup order toYaml c username password)
        (setup order' toYaml c username' password') ↔
      c.selection ≠ dotEnv ∨
        (credentialLines username password).Perm (credentialLines username' password')) ∧
    ('\n' ∉ username.toList → '\n' ∉ password.toList → '\n' ∉ username'.toList →
      '\n' ∉ password'.toList →
      ((credentialLines username password).Perm (credentialLines username' password') ↔
        username = username' ∧ password = password')) :=
  ⟨sameUpToLineOrder_setup_iff order order' toYaml c username password username' password',
    fun hu hp hu' hp' => credentialLines_perm_iff hu hp hu' hp'⟩

/-- Hash maps walked in the order of their association lists. -/
def listOrder : HashOrder where
  iter := StringMap.pairs
  perm _ := .refl _

/-- A `.env` file of one operator's answers is not that of another's. -/
theorem setup_files_differ : ¬ ∀ (order order' : HashOrder)
    (toYaml : Json.Value → Option (List Char)) (c : Choices)
    (username password username' password' : String),
    SameUpToLineOrder (setup order toYaml c username password)
      (setup order' toYaml c username' password') := by
  intro h
  have hsame := h listOrder listOrder (fun _ => none)
    ⟨"https://example.topdesk.net", .basic, "general-1.2.0", .stdio, dotEnv, ".", "config.yml"⟩
    "alice" "s3cr3t" "bob" "s3cr3t"
  rw [sameUpToLineOrder_setup_iff] at hsame
  have hanswers := (credentialLines_perm_iff (by decide) (by decide) (by decide)
    (by decide)).mp (hsame.resolve_left (by simp))
  exact absurd hanswers.1 (by decide)

end TopdeskMcp.Theorems.Setup
