import TopdeskMcp.Auth.AuthManager
import TopdeskMcp.Core.ConfigSchema
import TopdeskMcp.Lib.HashMap
import TopdeskMcp.Lib.Json

/-!
# The setup wizard (`cli/setup_wizard.rs`)

From the answers to what is written: `buildRuntimeSettings` folds url, auth
method, API version, transport and credentials into one map of environment
variables and picks the configuration fields out of it; `persistSelectionAt`
writes the one or the other, by the operator's choice.

A Rust hash map is walked in no particular order, and in another one by the
next process: the order of a run is a parameter, `HashOrder`. So is
`serde_yaml`. The command line that the last choice prints is `cliInvocation`; what else
is printed, and the prompts themselves, are left out.
-/

namespace TopdeskMcp

namespace Setup

/-- A file that is written. -/
structure Written where
  path : String
  contents : List Char

/-- The keys are ASCII: the wizard has no others. -/
def toEnvKey (key : String) : String := String.ofList (key.toList.map Char.toUpper)

/-- The choices of `prompt_api_version`. -/
def apiVersionChoices : List String :=
  ["general-1.2.0 (default/latest)", "incident-4.2.6", "knowledge-base-before-explorer-migration",
   "knowledge-base-after-explorer-migration", "knowledgebase-graphql-1.0.0", "reservations-2.0.0",
   "services-1.3.7", "change-1.4.0", "assets-1.91.1", "operations-management-1.10.0",
   "visitors-2.0.0", "supporting-files-2.7.11", "access-roles-saas",
   "access-roles-va-release-1-2026", "lookandfeel-1.0.0", "task-notifications-1.0.0",
   "settings-1.1.0", "custom-action-support-saas",
   "custom-action-support-va-release-1-2023-or-newer"]

/-- The version that is selected; a choice is the version itself but for the first one. -/
def promptApiVersion (selection : String) : String :=
  if selection = "general-1.2.0 (default/latest)" then "general-1.2.0" else selection

/-- The credential map that `prompt_credentials` makes of the two answers. -/
def promptCredentials (username password : String) : StringMap :=
  ((∅ : StringMap).insert "username" username).insert "password" password

/-- The answers are saved where the auth manager looks for credentials. -/
def saveAnswers (E : AuthEnv) (stores : Credentials.Stores) (username password : String) :
    Credentials.Outcome Unit × Credentials.Stores :=
  Credentials.saveCredential E.platform E.save.keychain E.save.io E.save.nonce stores
    "active-credentials" (E.platform.toStr (promptCredentials username password))

def envPrefix : String := "TOPDESK_MCP_"

/-- A field of `json!`, null when the variable is missing. -/
def configField (env : StringMap) (name key : String) : String × Json.Value :=
  (name, match env.lookup key with
    | some value => .string value
    | none => .null)

def buildRuntimeSettings (order : HashOrder) (url : String) (authMethod : AuthMethod)
    (apiVersion : String) (transport : Transport) (credentials : StringMap) :
    StringMap × Json.Value :=
  let env := (((∅ : StringMap).insert "TOPDESK_MCP_URL" url).insert "TOPDESK_MCP_AUTH_METHOD"
    authMethod.toStr).insert "TOPDESK_MCP_API_VERSION" apiVersion
  let env := env.insert "TOPDESK_MCP_TRANSPORT" transport.toStr
  -- every credential becomes a variable beside the settings
  let env := (order.iter credentials).foldl
    (fun env entry => env.insert (envPrefix ++ toEnvKey entry.1) entry.2) env
  (env, .object
    [configField env "url" "TOPDESK_MCP_URL",
     configField env "auth_method" "TOPDESK_MCP_AUTH_METHOD",
     configField env "api_version" "TOPDESK_MCP_API_VERSION",
     configField env "transport" "TOPDESK_MCP_TRANSPORT"])

def startsWith (text start : String) : Bool := start.toList.isPrefixOf text.toList

def dotEnv : String := "Write a .env file"

/-- One line of the `.env` file. -/
def envLine (entry : String × String) : List Char :=
  entry.1.toList ++ '=' :: entry.2.toList

/-- The file a choice writes, if it writes one; `none` when `serde_yaml` fails. -/
def persistSelectionAt (order : HashOrder) (toYaml : Json.Value → Option (List Char))
    (selection : String) (env : StringMap) (configFields : Json.Value)
    (localDir globalConfig : String) : Option (Option Written) :=
  if selection = dotEnv then
    some (some ⟨localDir ++ "/.env", ['\n'].intercalate ((order.iter env).map envLine) ++ ['\n']⟩)
  else if startsWith selection "Write a config.yml file (global" then
    (toYaml configFields).map fun yaml => some ⟨globalConfig, yaml⟩
  else if startsWith selection "Write a config.yml file (local" then
    (toYaml configFields).map fun yaml => some ⟨localDir ++ "/topdesk-mcp.config.yml", yaml⟩
  else some none

/-! ## The printed command line -/

/-- `{:?}` of a character in a string. The characters beyond ASCII are a parameter: some of
them are escaped, by the tables of the standard library. -/
def escapeDebug (unicode : Char → List Char) (c : Char) : List Char :=
  if c = '"' then ['\\', '"']
  else if c = '\\' then ['\\', '\\']
  else if c.toNat = 0x00 then ['\\', '0']
  else if c.toNat = 0x09 then ['\\', 't']
  else if c.toNat = 0x0a then ['\\', 'n']
  else if c.toNat = 0x0d then ['\\', 'r']
  else if c.toNat < 0x20 ∨ c.toNat = 0x7f then
    "\\u\x7b".toList ++ Nat.toDigits 16 c.toNat ++ "\x7d".toList
  else if c.toNat < 0x80 then [c]
  else unicode c

def debugStr (unicode : Char → List Char) (value : String) : List Char :=
  '"' :: value.toList.flatMap (escapeDebug unicode) ++ ['"']

/-- The keys are ASCII: the wizard has no others. -/
def flagName (key : String) : String :=
  String.ofList (key.toList.map fun c => if c.toLower = '_' then '-' else c.toLower)

def cliFlag (unicode : Char → List Char) (entry : String × String) : List Char :=
  "--".toList ++ (flagName entry.1).toList ++ ' ' :: debugStr unicode entry.2

/-- What is printed when no file is to be written. -/
def cliInvocation (order : HashOrder) (unicode : Char → List Char) (env : StringMap) : List Char :=
  "topdesk-mcp start ".toList ++ [' '].intercalate ((order.iter env).map (cliFlag unicode))

/-- The choices of `prompt_persistence`. -/
inductive Choice where
  | dotEnv
  | globalYaml
  | localYaml
  | cli
  deriving DecidableEq, Repr

def Choice.label : Choice → String
  | .dotEnv => "Write a .env file"
  | .globalYaml => "Write a config.yml file (global — ~/.topdesk-mcp/config.yml, read on every " ++
      "invocation on this machine)"
  | .localYaml => "Write a config.yml file (local — ./topdesk-mcp.config.yml, read only from " ++
      "this directory)"
  | .cli => "Print a ready-to-run CLI invocation (nothing written to disk)"

/-- The command that the wizard ends by naming. -/
def runCommand : Transport → String
  | .stdio => "start"
  | .http => "http"

end Setup

end TopdeskMcp
