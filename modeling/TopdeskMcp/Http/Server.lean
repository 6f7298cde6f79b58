import TopdeskMcp.Lib.SocketAddr
import TopdeskMcp.Core.ConfigSchema

/-!
# The HTTP server (`http/server.rs`)

From the configuration to the address that the listener is bound to.
-/

namespace TopdeskMcp

open Net (SocketAddr)

structure HttpServerConfig where
  host : String
  port : UInt16
  corsAllow : Option String

/-- The `http_config` of `run_harness_server`. -/
def HttpServerConfig.ofConfig (config : Config) : HttpServerConfig where
  host := config.host
  port := config.port
  corsAllow := config.corsAllow

/-- `format!("{}:{}", config.host, config.port)`. -/
def HttpServerConfig.hostAndPort (config : HttpServerConfig) : String :=
  config.host ++ ":" ++ config.port.toNat.repr

/-- The `Host` headers that are served. -/
def allowedHosts (config : HttpServerConfig) : List String :=
  ["localhost", "127.0.0.1", "::1", config.host, config.hostAndPort]

def listenAddr (config : HttpServerConfig) : Except String SocketAddr :=
  match SocketAddr.parse config.hostAndPort.toList with
  | some addr => .ok addr
  | none => .error "invalid socket address syntax"

/-- A server at its listener. -/
structure HttpServer where
  addr : SocketAddr
  allowedHosts : List String
  corsAllow : Option String

/-- The machine returns the error of `bind`, if there is one. -/
def startHttpServer (bind : SocketAddr → Option String) (config : HttpServerConfig) :
    Except String HttpServer := do
  let addr ← listenAddr config
  match bind addr with
  | some error => .error error
  | none => .ok ⟨addr, allowedHosts config, config.corsAllow⟩

end TopdeskMcp
