import TopdeskMcp.Core.ConfigManager

/-!
# The commands (`main.rs`)

The grammar of the command line, what a command is read as, and the configuration a
command runs with. `start` and `http` set variables of their own process first, so that
what is given on the command line goes the way of the environment.

clap is a parameter: it reads a list of arguments by a grammar. Only what is said of it
in `Clap.Lawful` is used.
-/

namespace TopdeskMcp

/-- An option of a subcommand that takes a value. -/
structure Opt where
  long : String
  short : Option Char := none
  default : Option String := none

structure Subcommand where
  name : String
  positionals : List String := []
  options : List Opt := []

/-- `Command`. -/
def commands : List Subcommand :=
  [{ name := "setup" },
   { name := "search", positionals := ["query"],
     options := [⟨"limit", some 'l', some "5"⟩, ⟨"profile-warmups", none, some "0"⟩,
       ⟨"profile-iterations", none, some "1"⟩] },
   { name := "get", positionals := ["operation_id"] },
   { name := "call", positionals := ["operation_id"],
     options := [⟨"args", some 'a', some "\x7b\x7d"⟩] },
   { name := "start" },
   { name := "http", options := [⟨"host", none, none⟩, ⟨"port", none, none⟩,
       ⟨"cors-allow", none, none⟩] },
   { name := "test-connection" },
   { name := "config" },
   { name := "version" },
   { name := "versions" }]

/-- The subcommand and the values that are given. -/
structure Matches where
  subcommand : String
  values : List (String × String)

/-- The arguments after the program's name; `none` when clap prints and exits. -/
structure Clap where
  parse : List Subcommand → List String → Option Matches

structure Clap.Lawful (clap : Clap) : Prop where
  bare : ∀ sub ∈ commands, sub.positionals = [] →
    clap.parse commands [sub.name] = some ⟨sub.name, []⟩
  /-- There is a help, but no command runs then. -/
  unknownOption : ∀ sub ∈ commands, ∀ flag rest, flag ≠ "" → '=' ∉ flag.toList →
    (∀ opt ∈ sub.options, opt.long ≠ flag) →
    clap.parse commands (sub.name :: ("--" ++ flag) :: rest) = none

/-- A given value, or the default of the option. -/
def Matches.get (m : Matches) (key : String) : Option String :=
  (m.values.lookup key).or ((commands.find? (·.name == m.subcommand)).bind fun sub =>
    (sub.options.find? (·.long == key)).bind (·.default))

inductive Command where
  | setup
  | search (query : String) (limit profileWarmups profileIterations : Nat)
  | get (operationId : String)
  | call (operationId args : String)
  | start
  | http (host : Option String) (port : Option Nat) (corsAllow : Option String)
  | testConnection
  | config
  | version
  | versions
  deriving DecidableEq

namespace Command

/-- A `usize` is one of 64 bits. -/
def usize (text : String) : Option Nat := parseUnsigned UInt64.size text

def fromMatches (m : Matches) : Option Command :=
  match m.subcommand with
  | "setup" => some .setup
  | "search" => do
      let query ← m.get "query"
      let limit ← (m.get "limit").bind usize
      let profileWarmups ← (m.get "profile-warmups").bind usize
      let profileIterations ← (m.get "profile-iterations").bind usize
      return .search query limit profileWarmups profileIterations
  | "get" => (m.get "operation_id").map .get
  | "call" => do
      let operationId ← m.get "operation_id"
      let args ← m.get "args"
      return .call operationId args
  | "start" => some .start
  | "http" =>
      match m.get "port" with
      | none => some (.http (m.get "host") none (m.get "cors-allow"))
      | some text => (parseUnsigned UInt16.size text).map fun port =>
          .http (m.get "host") (some port) (m.get "cors-allow")
  | "test-connection" => some .testConnection
  | "config" => some .config
  | "version" => some .version
  | "versions" => some .versions
  | _ => none

/-- A variable that is set if there is a value for it. -/
def setVar (env : StringMap) (name : String) : Option String → StringMap
  | some value => env.insert name value
  | none => env

/-- The environment after `set_var`. -/
def environment (env : StringMap) : Command → StringMap
  | .start => env.insert "TOPDESK_MCP_TRANSPORT" "stdio"
  | .http host port corsAllow =>
      let env := env.insert "TOPDESK_MCP_TRANSPORT" "http"
      let env := setVar env "TOPDESK_MCP_HOST" host
      let env := setVar env "TOPDESK_MCP_PORT" (port.map Nat.repr)
      setVar env "TOPDESK_MCP_CORS_ALLOW" corsAllow
  | _ => env

/-- The configuration a command runs with; the others run without one. -/
def loaded (serde : Serde) (machine : Machine) (env : StringMap) (files : TextFiles)
    (command : Command) : Option (Except McpifyError Config) :=
  match command with
  | .setup | .version | .versions => none
  | _ => some (loadConfig serde machine ∅ (command.environment env) files)

end Command

/-- What the program is configured with when it is run with these arguments; `none` when it does
not come to that. -/
def runWith (clap : Clap) (serde : Serde) (machine : Machine) (env : StringMap) (files : TextFiles)
    (args : List String) : Option (Except McpifyError Config) :=
  ((clap.parse commands args).bind Command.fromMatches).bind (Command.loaded serde machine env files)

end TopdeskMcp
