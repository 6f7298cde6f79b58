import TopdeskMcp.Core.ConfigSchema
import TopdeskMcp.Core.Errors

/-!
# The auth manager (`auth/auth_manager.rs` and its strategies)

Which credentials decorate a call. On stdio they come from the manager's cache,
the environment or the credential store; over HTTP they are the ones extracted
from the caller's own request (`http/auth_extractor.rs`) and nothing else.

* `AuthStrategy` and `basicAuthStrategy` (`auth/strategies/basic.rs`);
* `AuthManager.credentials` and `AuthManager.applyAuthHeaders` thread the
  manager and the store, since both may change even when the call fails;
* `extractRequestCredentials` reads a request's headers.

`AuthEnv` is what one call finds outside the process: the variables, how the
keychain and the file system serve it, and the functions of other crates.
-/

namespace TopdeskMcp

structure RequestCredentials where
  headerName : String
  value : String
  deriving DecidableEq, Repr

def RequestCredentials.intoCredentialsMap (c : RequestCredentials) : StringMap :=
  ((∅ : StringMap).insert "request_header_name" c.headerName).insert "request_header_value" c.value

/-- How the keychain and the file system serve one save. -/
structure SaveEnv where
  keychain : Credentials.Keychain
  io : Credentials.Io
  nonce : Credentials.Nonce

structure AuthEnv where
  platform : Credentials.Platform
  base64 : Bytes → String
  username : Option String
  password : Option String
  loadKeychain : Credentials.Keychain
  loadIo : Credentials.Io
  save : SaveEnv

/-! ## Strategies -/

structure AuthStrategy where
  authenticate : StringMap → Except CallError StringMap
  refreshToken : StringMap → Except CallError StringMap
  validateCredentials : StringMap → Bool

/-- The default of the trait. -/
def noRefresh (_ : StringMap) : Except CallError StringMap :=
  .error (.message "this auth strategy does not support token refresh")

def nonEmptyField (credentials : StringMap) (field : String) : Bool :=
  match credentials.lookup field with
  | some value => value != ""
  | none => false

def basicAuthStrategy (base64 : Bytes → String) : AuthStrategy where
  authenticate config :=
    match config.lookup "username", config.lookup "password" with
    | some username, some password =>
        let token := base64 (Utf8.encode (username ++ ":" ++ password))
        .ok ((((∅ : StringMap).insert "username" username).insert "password" password).insert
          "authorization_header" ("Basic " ++ token))
    | _, _ => .error (.auth (.missingCredentials "username, password"))
  refreshToken := noRefresh
  validateCredentials credentials :=
    (credentials.lookup "authorization_header").isSome ||
      (nonEmptyField credentials "username" && nonEmptyField credentials "password")

def strategyFor (base64 : Bytes → String) : AuthMethod → AuthStrategy
  | .basic => basicAuthStrategy base64

/-- Where the auth method's credential travels, and under which name. -/
def headerLocationFor : AuthMethod → String × String
  | .basic => ("header", "Authorization")

/-! ## The manager -/

structure AuthManager where
  authMethod : AuthMethod
  cachedCredentials : Option StringMap

/-- What calls share: the manager and the credential store behind it. -/
structure AuthState where
  manager : AuthManager
  stores : Credentials.Stores

def credentialAccount : String := "active-credentials"

/-- Both variables, or nothing. -/
def credentialsFromEnv (E : AuthEnv) : AuthMethod → Option StringMap
  | .basic =>
      match E.username, E.password with
      | some username, some password =>
          some (((∅ : StringMap).insert "username" username).insert "password" password)
      | _, _ => none

namespace AuthManager

def new (authMethod : AuthMethod) : AuthManager := { authMethod, cachedCredentials := none }

def setCredentials (m : AuthManager) (credentials : StringMap) : AuthManager :=
  { m with cachedCredentials := some credentials }

def strategy (E : AuthEnv) (m : AuthManager) : AuthStrategy := strategyFor E.base64 m.authMethod

/-- `Debug` of the auth method. -/
def debugName : AuthMethod → String
  | .basic => "Basic"

def normalizeCredentials (E : AuthEnv) (m : AuthManager) (credentials : StringMap) :
    Except CallError StringMap :=
  if (credentials.lookup "authorization_header").isSome ∨ (credentials.lookup "api_key").isSome ∨
      (credentials.lookup "request_header_name").isSome then .ok credentials
  else
    match credentials.lookup "access_token" with
    | some accessToken =>
        .ok (credentials.insert "authorization_header" ("Bearer " ++ accessToken))
    | none => (m.strategy E).authenticate credentials

/-- `save_credential` as a call uses it: an error ends the call. -/
def saveActive (E : AuthEnv) (s : AuthState) (credentials : StringMap) :
    Except CallError StringMap × AuthState :=
  let saved := Credentials.saveCredential E.platform E.save.keychain E.save.io E.save.nonce s.stores
    credentialAccount (E.platform.toStr credentials)
  let s := { s with stores := saved.2 }
  match saved.1 with
  | .ok () => (.ok credentials, s)
  | .err error => (.error (.storage error), s)
  | .panicked => (.error .panicked, s)

/-- Credentials are cached before they are saved. -/
def keep (E : AuthEnv) (s : AuthState) : Except CallError StringMap →
    Except CallError StringMap × AuthState
  | .error error => (.error error, s)
  | .ok credentials =>
      saveActive E { s with manager := s.manager.setCredentials credentials } credentials

def login (E : AuthEnv) (s : AuthState) (config : StringMap) :
    Except CallError StringMap × AuthState :=
  keep E s ((s.manager.strategy E).authenticate config)

/-- The cache, when its content is still good. -/
def cached (E : AuthEnv) (m : AuthManager) : Option StringMap :=
  m.cachedCredentials.filter (m.strategy E).validateCredentials

/-- The environment's credentials, when they authenticate and are good. -/
def fromEnv (E : AuthEnv) (m : AuthManager) : Option StringMap :=
  ((credentialsFromEnv E m.authMethod).bind fun config =>
    ((m.strategy E).authenticate config).toOption).filter (m.strategy E).validateCredentials

def noActiveCredentials (m : AuthManager) : CallError :=
  .auth (.noActiveCredentials (debugName m.authMethod))

/-- The last stage of `credentials`: a blob from the store. -/
def fromStored (E : AuthEnv) (s : AuthState) (parsed : StringMap) :
    Except CallError StringMap × AuthState :=
  let strategy := s.manager.strategy E
  if strategy.validateCredentials parsed then
    keep E s (s.manager.normalizeCredentials E parsed)
  else
    -- with a refresh token it has been exchanged before, without one never
    let exchanged :=
      if (parsed.lookup "refresh_token").isSome then strategy.refreshToken parsed
      else strategy.authenticate parsed
    match exchanged with
    | .ok exchanged => keep E s (s.manager.normalizeCredentials E exchanged)
    | .error _ => (.error s.manager.noActiveCredentials, s)

def credentials (E : AuthEnv) (s : AuthState) : Except CallError StringMap × AuthState :=
  match s.manager.cached E with
  | some cached => (s.manager.normalizeCredentials E cached, s)
  | none =>
      match s.manager.fromEnv E with
      | some fromEnv =>
          (.ok fromEnv, { s with manager := s.manager.setCredentials fromEnv })
      | none =>
          match Credentials.loadCredential E.platform E.loadKeychain E.loadIo s.stores
              credentialAccount with
          | .err error => (.error (.storage error), s)
          | .panicked => (.error .panicked, s)
          | .ok none => (.error s.manager.noActiveCredentials, s)
          | .ok (some stored) =>
              match E.platform.fromStr stored with
              | none => (.error .json, s)
              | some parsed => fromStored E s parsed

/-- What the header map gains from a credentials map. -/
def decorate (headers credentials : StringMap) : StringMap :=
  match credentials.lookup "request_header_name", credentials.lookup "request_header_value" with
  | some name, some value => headers.insert name value
  | _, _ =>
      match credentials.lookup "authorization_header" with
      | some header => headers.insert "Authorization" header
      | none =>
          match credentials.lookup "api_key" with
          | some apiKey =>
              headers.insert ((credentials.lookup "request_header_name").getD "X-Api-Key") apiKey
          | none => headers

def noRequestCredentials : String :=
  "no credentials were supplied on this HTTP request; local config/env/keychain is never used " ++
    "as a fallback over HTTP transport"

/-- The method and the address are parameters that nothing reads. -/
def applyAuthHeaders (E : AuthEnv) (s : AuthState) (headers : StringMap) (transport : Transport)
    (requestOverride : Option RequestCredentials) : Except CallError StringMap × AuthState :=
  match transport, requestOverride with
  | .http, some overrideCredentials =>
      (.ok (decorate headers overrideCredentials.intoCredentialsMap), s)
  | .http, none => (.error (.message noRequestCredentials), s)
  | .stdio, _ =>
      let found := credentials E s
      (found.1.map (decorate headers), found.2)

end AuthManager

/-! ## Credentials of an incoming request -/

/-- The headers of a request, in order; names are compared without case. -/
abbrev HeaderMap := List (String × Bytes)

def lowerCase (name : String) : List Char := name.toList.map Char.toLower

def HeaderMap.get (headers : HeaderMap) (name : String) : Option Bytes :=
  (headers.find? fun header => lowerCase header.1 == lowerCase name).map Prod.snd

/-- `HeaderValue::to_str`: visible ASCII and tabs. -/
def headerToStr (value : Bytes) : Option String :=
  if value.all fun b => (32 ≤ b && b < 127) || b == 9 then
    some (String.ofList (value.map fun b => Char.ofNat b.toNat))
  else none

inductive ExtractError where
  | missing
  | unsupportedLocation (location : String)
  deriving DecidableEq, Repr

def extractRequestCredentials (headers : HeaderMap) (headerLocation headerName : String) :
    Except ExtractError RequestCredentials :=
  if headerLocation != "header" then .error (.unsupportedLocation headerLocation)
  else
    match ((headers.get headerName).bind headerToStr).filter (· != "") with
    | some value => .ok { headerName, value }
    | none => .error .missing

/-! ## What the manager does over HTTP -/

theorem lookup_intoCredentialsMap (c : RequestCredentials) :
    c.intoCredentialsMap.lookup "request_header_name" = some c.headerName ∧
      c.intoCredentialsMap.lookup "request_header_value" = some c.value := by
  refine ⟨?_, AList.lookup_insert _⟩
  rw [RequestCredentials.intoCredentialsMap, AList.lookup_insert_ne (by decide),
    AList.lookup_insert]

/-- A caller's credentials add exactly their own header. -/
theorem AuthManager.decorate_intoCredentialsMap (headers : StringMap) (c : RequestCredentials) :
    decorate headers c.intoCredentialsMap = headers.insert c.headerName c.value := by
  obtain ⟨hname, hvalue⟩ := lookup_intoCredentialsMap c
  simp only [decorate, hname, hvalue]

/-- An extracted credential is under the name that was asked for. -/
theorem extractRequestCredentials_name {headers : HeaderMap} {location name : String}
    {c : RequestCredentials} (h : extractRequestCredentials headers location name = .ok c) :
    c.headerName = name := by
  unfold extractRequestCredentials at h
  split at h
  · simp at h
  · split at h
    · rw [← Except.ok.inj h]
    · simp at h

end TopdeskMcp
