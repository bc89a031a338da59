import SodaPool.StdTypes

/-!
# URLs, URIs and endpoints

The types of `url`, `http` and `tonic` that an endpoint is built from, by their components.
What these crates do is a parameter, and what is known of it is stated apart.
-/

namespace SodaPool

inductive Host
  | domain (name : String)
  | ip (address : IpAddr)
  deriving DecidableEq

/-- A URL that was parsed; the user info is what stands before `@`. -/
structure Url where
  scheme : String
  userInfo : Option String
  host : Option Host
  port : Option UInt16
  path : String
  query : Option String
  fragment : Option String
  cannotBeABase : Bool
  deriving DecidableEq

/-- The other type of `http` for an address. It has no fragment. -/
structure Uri where
  scheme : Option String
  userInfo : Option String
  host : Option String
  port : Option UInt16
  path : String
  query : Option String
  deriving DecidableEq

/-- What `Uri::from_str` looks at, piece by piece. -/
inductive Component
  | scheme
  | userInfo
  | domain
  | port
  | path
  | query
  | fragment

/-- `u16::MAX - 1`, the most bytes that a URI may have. -/
def maxLen : ℕ := 65534

/-! Texts and URIs, by the way in which an address is written in a URL. -/

section Texts

variable (ipText : IpAddr → String)

def Host.text : Host → String
  | .domain name => name
  | .ip address => ipText address

namespace Url

variable (url : Url)

/-- A part of a URL that need not be there, with the mark before it. -/
def part (mark : String) (text : Option String) : String := (text.map (mark ++ ·)).getD ""

def authority : Option Host → String
  | none => ""
  | some host => "//" ++ (url.userInfo.map (· ++ "@")).getD "" ++ host.text ipText ++
      part ":" (url.port.map toString)

def asStr : String :=
  url.scheme ++ ":" ++ url.authority ipText url.host ++ url.path ++ part "?" url.query ++
    part "#" url.fragment

/-- The URI of the same components. An empty path is `/`. -/
def toUri : Uri :=
  ⟨some url.scheme,url.userInfo,url.host.map (Host.text ipText),url.port,
    if url.path = "" then "/" else url.path,url.query⟩

/-- With an address in the place of the host. -/
def withIp (ip : IpAddr) : Url := {url with host := some (.ip ip)}

end Url
end Texts

/-- What is used of the crates: `set_ip_host`, `Uri::from_str` of the text of a URL, and what
`Endpoint` makes of a user agent and of a configuration of TLS. -/
structure Crates (HeaderValue ClientTlsConfig : Type) where
  ipText : IpAddr → String
  setIpHost : Url → IpAddr → Option Url
  accepts : Component → String → Bool
  uriFromStr : Url → Option Uri
  userAgentAccepts : HeaderValue → Bool
  tlsAccepts : ClientTlsConfig → Uri → Bool

namespace Crates

variable {HeaderValue ClientTlsConfig : Type} (c : Crates HeaderValue ClientTlsConfig)

/-- Every component is accepted; an address always is. -/
structure Acceptable (url : Url) : Prop where
  scheme : c.accepts .scheme url.scheme
  userInfo : ∀ text ∈ url.userInfo, c.accepts .userInfo text
  host : ∀ name, url.host = some (.domain name) → c.accepts .domain name
  port : ∀ port ∈ url.port, c.accepts .port (toString port)
  path : c.accepts .path url.path
  query : ∀ text ∈ url.query, c.accepts .query text
  fragment : ∀ text ∈ url.fragment, c.accepts .fragment text

/-- The crates as they are documented. -/
structure Documented : Prop where
  setIpHost_eq : ∀ url ip, c.setIpHost url ip = if url.cannotBeABase then none else some (url.withIp ip)
  uriFromStr_eq_some : ∀ url uri, url.host.isSome → (c.uriFromStr url = some uri ↔
    (url.asStr c.ipText).utf8ByteSize ≤ maxLen ∧ c.Acceptable url ∧ uri = url.toUri c.ipText)
  userAgent : ∀ value, c.userAgentAccepts value

/-- Only the host of an accepted URL can be refused. -/
theorem Acceptable.withIp {c : Crates HeaderValue ClientTlsConfig} {url : Url}
    (h : c.Acceptable url) (ip : IpAddr) : c.Acceptable (url.withIp ip) :=
  {h with host := fun name hname => by cases hname}

end Crates

/-- One call on an endpoint that is being set up. -/
inductive Setting (HeaderValue ClientTlsConfig : Type)
  | origin (uri : Uri)
  | userAgent (value : HeaderValue)
  | timeout (dur : ℕ)
  | tlsConfig (config : ClientTlsConfig)
  | connectTimeout (dur : ℕ)
  | tcpKeepalive (dur : Option ℕ)
  | tcpKeepaliveInterval (interval : Option ℕ)
  | tcpKeepaliveRetries (retries : Option UInt32)
  | concurrencyLimit (limit : ℕ)
  | rateLimit (limit : UInt64) (dur : ℕ)
  | initialStreamWindowSize (sz : UInt32)
  | initialConnectionWindowSize (sz : UInt32)
  | bufferSize (sz : Option ℕ)
  | tcpNodelay (enabled : Bool)
  | http2KeepAliveInterval (interval : ℕ)
  | keepAliveTimeout (dur : ℕ)
  | keepAliveWhileIdle (enabled : Bool)
  | http2AdaptiveWindow (enabled : Bool)
  | http2MaxHeaderListSize (size : UInt32)
  | localAddress (ip : Option IpAddr)

/-- An endpoint: where it is, and the calls that have set it up. -/
@[ext]
structure Endpoint (HeaderValue ClientTlsConfig : Type) where
  uri : Uri
  settings : List (Setting HeaderValue ClientTlsConfig)

namespace Endpoint

variable {HeaderValue ClientTlsConfig : Type} (c : Crates HeaderValue ClientTlsConfig)

def ofUri (uri : Uri) : Endpoint HeaderValue ClientTlsConfig := ⟨uri,[]⟩

def set (e : Endpoint HeaderValue ClientTlsConfig) (s : Setting HeaderValue ClientTlsConfig) :
    Endpoint HeaderValue ClientTlsConfig :=
  {e with settings := e.settings ++ [s]}

/-- Nothing is called for a setting that is not there. -/
def setIf (e : Endpoint HeaderValue ClientTlsConfig) :
    Option (Setting HeaderValue ClientTlsConfig) → Endpoint HeaderValue ClientTlsConfig
  | some s => e.set s
  | none => e

def userAgent (e : Endpoint HeaderValue ClientTlsConfig) (value : HeaderValue) :
    Option (Endpoint HeaderValue ClientTlsConfig) :=
  if c.userAgentAccepts value then some (e.set (.userAgent value)) else none

def tlsConfig (e : Endpoint HeaderValue ClientTlsConfig) (config : ClientTlsConfig) :
    Option (Endpoint HeaderValue ClientTlsConfig) :=
  if c.tlsAccepts config e.uri then some (e.set (.tlsConfig config)) else none

/-- Nothing can fail for a setting that is not there. -/
def tryIf {α : Type} (e : Endpoint HeaderValue ClientTlsConfig) (o : Option α)
    (f : Endpoint HeaderValue ClientTlsConfig → α → Option (Endpoint HeaderValue ClientTlsConfig)) :
    Option (Endpoint HeaderValue ClientTlsConfig) :=
  match o with
  | some a => f e a
  | none => some e

section Fields

variable (e : Endpoint HeaderValue ClientTlsConfig) (s : Setting HeaderValue ClientTlsConfig)
  (o : Option (Setting HeaderValue ClientTlsConfig))

@[simp] theorem uri_set : (e.set s).uri = e.uri := rfl

@[simp] theorem settings_set : (e.set s).settings = e.settings ++ [s] := rfl

@[simp] theorem uri_setIf : (e.setIf o).uri = e.uri := by
  cases o <;> rfl

@[simp] theorem settings_setIf : (e.setIf o).settings = e.settings ++ o.toList := by
  cases o <;> simp [setIf]

end Fields

variable {c} {e e' : Endpoint HeaderValue ClientTlsConfig}

theorem tryIf_userAgent {o : Option HeaderValue} : e.tryIf o (userAgent c) = some e' ↔
    (∀ value ∈ o, c.userAgentAccepts value) ∧ e' = e.setIf (o.map .userAgent) := by
  rw [@eq_comm _ e']
  cases o with
  | none => simp [tryIf,setIf]
  | some value =>
    have hcall : e.tryIf (some value) (userAgent c) =
      if c.userAgentAccepts value then some (e.set (.userAgent value)) else none := rfl
    rw [hcall,Option.ite_none_right_eq_some]
    simp [setIf]

theorem tryIf_tlsConfig {o : Option ClientTlsConfig} : e.tryIf o (tlsConfig c) = some e' ↔
    (∀ config ∈ o, c.tlsAccepts config e.uri) ∧ e' = e.setIf (o.map .tlsConfig) := by
  rw [@eq_comm _ e']
  cases o with
  | none => simp [tryIf,setIf]
  | some config =>
    have hcall : e.tryIf (some config) (tlsConfig c) =
      if c.tlsAccepts config e.uri then some (e.set (.tlsConfig config)) else none := rfl
    rw [hcall,Option.ite_none_right_eq_some]
    simp [setIf]

end Endpoint

end SodaPool
