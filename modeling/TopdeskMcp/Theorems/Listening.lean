import TopdeskMcp.Http.Server
import TopdeskMcp.Theorems.Cascade

/-!
# Where the server listens

The host and the port are put together without brackets. So the parser has the configured
address back when it is one of version 4, and no address of version 6 is ever listened at.
-/

namespace TopdeskMcp.Theorems.Listening

open TopdeskMcp Net

/-- A server that is told to listen at an address. -/
def serverAt (ip : IpAddr) (port : UInt16) (corsAllow : Option String) : HttpServerConfig where
  host := String.ofList ip.text
  port := port
  corsAllow := corsAllow

/-- The server is at an address, if the machine lets it have that. -/
structure Listens (ip : IpAddr) (port : UInt16) (config : HttpServerConfig) : Prop where
  parses : listenAddr config = .ok (.new ip port)
  binds : ∀ bind, bind (.new ip port) = none →
    ∃ server, startHttpServer bind config = .ok server ∧ server.addr = .new ip port

def IsIpv4 (ip : IpAddr) : Prop := ∃ v4, ip = .v4 v4

/-! ## What is parsed -/

theorem hostAndPort_serverAt (ip : IpAddr) (port : UInt16) (corsAllow : Option String) :
    (serverAt ip port corsAllow).hostAndPort.toList =
      ip.text ++ ':' :: Nat.toDigits 10 port.toNat := by
  simp [HttpServerConfig.hostAndPort, serverAt, Nat.toList_repr]

theorem listenAddr_v4 (ip : Ipv4Addr) (port : UInt16) (corsAllow : Option String) :
    listenAddr (serverAt (.v4 ip) port corsAllow) = .ok (.new (.v4 ip) port) := by
  rw [listenAddr, hostAndPort_serverAt, IpAddr.text, parse_ipv4]
  rfl

theorem listenAddr_v6 (ip : Ipv6Addr) (port : UInt16) (corsAllow : Option String) :
    listenAddr (serverAt (.v6 ip) port corsAllow) = .error "invalid socket address syntax" := by
  rw [listenAddr, hostAndPort_serverAt, IpAddr.text, parse_ipv6]

/-! ## What is bound -/

theorem listens_of_listenAddr {ip : IpAddr} {port : UInt16} {config : HttpServerConfig}
    (h : listenAddr config = .ok (.new ip port)) : Listens ip port config where
  parses := h
  binds := by
    intro attempt hattempt
    refine ⟨⟨.new ip port, allowedHosts config, config.corsAllow⟩, ?_, rfl⟩
    simp only [startHttpServer, h, bind, Except.bind, hattempt]

/-- Whatever the machine would let it have. -/
theorem startHttpServer_v6 (bind : SocketAddr → Option String) (ip : Ipv6Addr) (port : UInt16)
    (corsAllow : Option String) :
    startHttpServer bind (serverAt (.v6 ip) port corsAllow) =
      .error "invalid socket address syntax" := by
  show (listenAddr _).bind _ = _
  rw [listenAddr_v6]
  rfl

theorem not_listens_v6 (ip : Ipv6Addr) (port : UInt16) (corsAllow : Option String) :
    ¬ Listens (.v6 ip) port (serverAt (.v6 ip) port corsAllow) := by
  intro h
  obtain ⟨server, hstart, -⟩ := h.binds (fun _ => none) rfl
  rw [startHttpServer_v6] at hstart
  simp at hstart

/-- What `http` is given as an address and a port is what the server is told. -/
theorem ofConfig_of_command {serde : Serde} {machine : Machine} {env : StringMap}
    {files : TextFiles} {config : Config} {ip : IpAddr} {port : UInt16} {corsAllow : Option String}
    (h : Command.loaded serde machine env files (Cascade.Given.command
      ⟨some (String.ofList ip.text), some port, corsAllow⟩) = some (.ok config)) :
    HttpServerConfig.ofConfig config = serverAt ip port config.corsAllow := by
  have hkept := Cascade.kept h
  rw [HttpServerConfig.ofConfig, hkept.host _ rfl, hkept.port _ rfl]
  rfl

/-- **Where the server listens.** It is at the configured address if and only if this is one of
version 4. -/
theorem listening_exact (ip : IpAddr) (port : UInt16) (corsAllow : Option String) :
    Listens ip port (serverAt ip port corsAllow) ↔ IsIpv4 ip := by
  constructor
  · intro h
    cases ip with
    | v4 ip => exact ⟨ip, rfl⟩
    | v6 ip => exact absurd h (not_listens_v6 ip port corsAllow)
  · rintro ⟨ip, rfl⟩
    exact listens_of_listenAddr (listenAddr_v4 ip port corsAllow)

/-! ## The loopback address -/

def loopback : Ipv6Addr := ⟨#v[0, 0, 0, 0, 0, 0, 0, 1]⟩

/-- In brackets it would be read. -/
example : SocketAddr.parse "[::1]:3000".toList = some (.new (.v6 loopback) 3000) := rfl

theorem listening_loopback_fails : (serverAt (.v6 loopback) 3000 none).host = "::1" ∧
    ¬ Listens (.v6 loopback) 3000 (serverAt (.v6 loopback) 3000 none) :=
  ⟨rfl, not_listens_v6 loopback 3000 none⟩

end TopdeskMcp.Theorems.Listening
