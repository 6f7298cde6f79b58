/-!
# The configuration (`core/config_schema.rs`)

The auth methods and transports with the names they have in configuration
files, and `Config` with the defaults of the fields a file may leave out.
-/

namespace TopdeskMcp

inductive AuthMethod where
  | basic
  deriving DecidableEq, Repr

inductive Transport where
  | stdio
  | http
  deriving DecidableEq, Repr

/-- The name in configuration files. -/
def AuthMethod.toStr : AuthMethod → String
  | .basic => "basic"

/-- The name in configuration files. -/
def Transport.toStr : Transport → String
  | .stdio => "stdio"
  | .http => "http"

structure Config where
  url : String
  authMethod : AuthMethod
  apiVersion : String := "general-1.2.0"
  logLevel : String := "info"
  rateLimit : UInt32 := 100
  timeoutMs : UInt64 := 30000
  cacheSize : UInt32 := 500
  retryAttempts : UInt32 := 3
  transport : Transport := .stdio
  host : String := "127.0.0.1"
  port : UInt16 := 3000
  corsAllow : Option String := none
  deriving DecidableEq, Repr

end TopdeskMcp
