import SodaPool.Endpoint
import Mathlib.Data.List.Basic

/-!
# Templates of endpoints

A template holds a URL with a hostname, and settings. `new` and the setters try what `build`
will do, but each on one address only, the hostname or the local host.
-/

namespace SodaPool

variable {HeaderValue ClientTlsConfig : Type} {c : Crates HeaderValue ClientTlsConfig}

inductive EndpointTemplateError
  | notAUrl
  | hostMissing
  | alreadyIpAddress
  | inconvertible
  | invalidUserAgent
  | invalidTlsConfig
  deriving DecidableEq

/-- What `new` asks of a URL. -/
structure Crates.Accepts (c : Crates HeaderValue ClientTlsConfig) (url : Url) : Prop where
  domain : ∃ name, url.host = some (.domain name)
  base : url.cannotBeABase = false
  uri : (c.uriFromStr url).isSome

structure EndpointTemplate (c : Crates HeaderValue ClientTlsConfig) where
  url : Url
  accepted : c.Accepts url
  origin : Option Uri := none
  userAgent : Option HeaderValue := none
  timeout : Option ℕ := none
  concurrencyLimit : Option ℕ := none
  rateLimit : Option (UInt64 × ℕ) := none
  tlsConfig : Option ClientTlsConfig := none
  bufferSize : Option ℕ := none
  initStreamWindowSize : Option UInt32 := none
  initConnectionWindowSize : Option UInt32 := none
  tcpKeepalive : Option ℕ := none
  tcpKeepaliveInterval : Option ℕ := none
  tcpKeepaliveRetries : Option UInt32 := none
  tcpNodelay : Option Bool := none
  http2KeepAliveInterval : Option ℕ := none
  http2KeepAliveTimeout : Option ℕ := none
  http2KeepAliveWhileIdle : Option Bool := none
  http2MaxHeaderListSize : Option UInt32 := none
  connectTimeout : Option ℕ := none
  http2AdaptiveWindow : Option Bool := none
  localAddress : Option IpAddr := none

/-- How a setter ends that does not return `Ok`. -/
inductive SetterFailure
  | error (e : EndpointTemplateError)
  | panic
  deriving DecidableEq

namespace EndpointTemplate

/-- `try_into` has given the URL, or nothing. -/
def new (c : Crates HeaderValue ClientTlsConfig) (url : Option Url) :
    Except EndpointTemplateError (EndpointTemplate c) :=
  match url with
  | none => .error .notAUrl
  | some url =>
    match hhost : url.host with
    | some (.domain name) =>
      if hbase : url.cannotBeABase then .error .inconvertible
      else
        match huri : c.uriFromStr url with
        | none => .error .inconvertible
        | some _ => .ok {
            url := url
            accepted := ⟨⟨name,hhost⟩,by simpa using hbase,by rw [huri]; rfl⟩ }
    | some (.ip _) => .error .alreadyIpAddress
    | none => .error .hostMissing

/-- `build_uri`, which panics where this gives nothing. -/
def buildUri (t : EndpointTemplate c) (ipAddr : IpAddr) : Option Uri := do
  let url ← c.setIpHost t.url ipAddr
  c.uriFromStr url

/-- `build`, which panics where this gives nothing. -/
def build (t : EndpointTemplate c) (ipAddress : IpAddr) :
    Option (Endpoint HeaderValue ClientTlsConfig) := do
  let uri ← t.buildUri ipAddress
  let endpoint := (Endpoint.ofUri uri).setIf (t.origin.map .origin)
  let endpoint ← endpoint.tryIf t.userAgent (Endpoint.userAgent c)
  let endpoint := endpoint.setIf (t.timeout.map .timeout)
  let endpoint ← endpoint.tryIf t.tlsConfig (Endpoint.tlsConfig c)
  let endpoint := endpoint.setIf (t.connectTimeout.map .connectTimeout)
  let endpoint := ((endpoint.set (.tcpKeepalive t.tcpKeepalive)).set
    (.tcpKeepaliveInterval t.tcpKeepaliveInterval)).set (.tcpKeepaliveRetries t.tcpKeepaliveRetries)
  let endpoint := endpoint.setIf (t.concurrencyLimit.map .concurrencyLimit)
  let endpoint := endpoint.setIf (t.rateLimit.map (fun (limit,dur) => .rateLimit limit dur))
  let endpoint := endpoint.setIf (t.initStreamWindowSize.map .initialStreamWindowSize)
  let endpoint := endpoint.setIf (t.initConnectionWindowSize.map .initialConnectionWindowSize)
  let endpoint := endpoint.set (.bufferSize t.bufferSize)
  let endpoint := endpoint.setIf (t.tcpNodelay.map .tcpNodelay)
  let endpoint := endpoint.setIf (t.http2KeepAliveInterval.map .http2KeepAliveInterval)
  let endpoint := endpoint.setIf (t.http2KeepAliveTimeout.map .keepAliveTimeout)
  let endpoint := endpoint.setIf (t.http2KeepAliveWhileIdle.map .keepAliveWhileIdle)
  let endpoint := endpoint.setIf (t.http2AdaptiveWindow.map .http2AdaptiveWindow)
  let endpoint := endpoint.setIf (t.http2MaxHeaderListSize.map .http2MaxHeaderListSize)
  return endpoint.set (.localAddress t.localAddress)

/-- The hostname, which panics where this gives nothing. -/
def domain (t : EndpointTemplate c) : Option String :=
  match t.url.host with
  | some (.domain name) => some name
  | _ => none

/-! The setters. A user agent comes as what `try_into` makes of it. -/

def setUserAgent (t : EndpointTemplate c) (userAgent : Option HeaderValue) :
    Except SetterFailure (EndpointTemplate c) :=
  match userAgent with
  | some ua => .ok {t with userAgent := some ua}
  | none => .error (.error .invalidUserAgent)

def setOrigin (t : EndpointTemplate c) (origin : Uri) : EndpointTemplate c :=
  {t with origin := some origin}

def setTimeout (t : EndpointTemplate c) (dur : ℕ) : EndpointTemplate c :=
  {t with timeout := some dur}

def setConnectTimeout (t : EndpointTemplate c) (dur : ℕ) : EndpointTemplate c :=
  {t with connectTimeout := some dur}

def setTcpKeepalive (t : EndpointTemplate c) (tcpKeepalive : Option ℕ) : EndpointTemplate c :=
  {t with tcpKeepalive := tcpKeepalive}

def setTcpKeepaliveInterval (t : EndpointTemplate c) (interval : ℕ) : EndpointTemplate c :=
  {t with tcpKeepaliveInterval := some interval}

def setTcpKeepaliveRetries (t : EndpointTemplate c) (retries : UInt32) : EndpointTemplate c :=
  {t with tcpKeepaliveRetries := some retries}

def setConcurrencyLimit (t : EndpointTemplate c) (limit : ℕ) : EndpointTemplate c :=
  {t with concurrencyLimit := some limit}

def setRateLimit (t : EndpointTemplate c) (limit : UInt64) (dur : ℕ) : EndpointTemplate c :=
  {t with rateLimit := some (limit,dur)}

def setInitialStreamWindowSize (t : EndpointTemplate c) (sz : Option UInt32) :
    EndpointTemplate c :=
  {t with initStreamWindowSize := sz}

def setInitialConnectionWindowSize (t : EndpointTemplate c) (sz : Option UInt32) :
    EndpointTemplate c :=
  {t with initConnectionWindowSize := sz}

def setBufferSize (t : EndpointTemplate c) (sz : Option ℕ) : EndpointTemplate c :=
  {t with bufferSize := sz}

/-- `Ipv4Addr::LOCALHOST`. -/
def localhost : IpAddr := .v4 0x7f000001

def setTlsConfig (t : EndpointTemplate c) (tlsConfig : ClientTlsConfig) :
    Except SetterFailure (EndpointTemplate c) :=
  match t.build localhost with
  | none => .error .panic
  | some endpoint =>
    match endpoint.tlsConfig c tlsConfig with
    | some _ => .ok {t with tlsConfig := some tlsConfig}
    | none => .error (.error .invalidTlsConfig)

def setTcpNodelay (t : EndpointTemplate c) (enabled : Bool) : EndpointTemplate c :=
  {t with tcpNodelay := some enabled}

def setHttp2KeepAliveInterval (t : EndpointTemplate c) (interval : ℕ) : EndpointTemplate c :=
  {t with http2KeepAliveInterval := some interval}

def setKeepAliveTimeout (t : EndpointTemplate c) (dur : ℕ) : EndpointTemplate c :=
  {t with http2KeepAliveTimeout := some dur}

def setKeepAliveWhileIdle (t : EndpointTemplate c) (enabled : Bool) : EndpointTemplate c :=
  {t with http2KeepAliveWhileIdle := some enabled}

def setHttp2AdaptiveWindow (t : EndpointTemplate c) (enabled : Bool) : EndpointTemplate c :=
  {t with http2AdaptiveWindow := some enabled}

def setHttp2MaxHeaderListSize (t : EndpointTemplate c) (size : UInt32) : EndpointTemplate c :=
  {t with http2MaxHeaderListSize := some size}

def setLocalAddress (t : EndpointTemplate c) (ip : Option IpAddr) : EndpointTemplate c :=
  {t with localAddress := ip}

end EndpointTemplate

/-- The call of a setter. -/
inductive SetterCall (HeaderValue ClientTlsConfig : Type)
  | userAgent (userAgent : Option HeaderValue)
  | origin (origin : Uri)
  | timeout (dur : ℕ)
  | connectTimeout (dur : ℕ)
  | tcpKeepalive (tcpKeepalive : Option ℕ)
  | tcpKeepaliveInterval (interval : ℕ)
  | tcpKeepaliveRetries (retries : UInt32)
  | concurrencyLimit (limit : ℕ)
  | rateLimit (limit : UInt64) (dur : ℕ)
  | initialStreamWindowSize (sz : Option UInt32)
  | initialConnectionWindowSize (sz : Option UInt32)
  | bufferSize (sz : Option ℕ)
  | tlsConfig (tlsConfig : ClientTlsConfig)
  | tcpNodelay (enabled : Bool)
  | http2KeepAliveInterval (interval : ℕ)
  | keepAliveTimeout (dur : ℕ)
  | keepAliveWhileIdle (enabled : Bool)
  | http2AdaptiveWindow (enabled : Bool)
  | http2MaxHeaderListSize (size : UInt32)
  | localAddress (ip : Option IpAddr)

namespace EndpointTemplate

def call (t : EndpointTemplate c) :
    SetterCall HeaderValue ClientTlsConfig → Except SetterFailure (EndpointTemplate c)
  | .userAgent userAgent => t.setUserAgent userAgent
  | .origin origin => .ok (t.setOrigin origin)
  | .timeout dur => .ok (t.setTimeout dur)
  | .connectTimeout dur => .ok (t.setConnectTimeout dur)
  | .tcpKeepalive tcpKeepalive => .ok (t.setTcpKeepalive tcpKeepalive)
  | .tcpKeepaliveInterval interval => .ok (t.setTcpKeepaliveInterval interval)
  | .tcpKeepaliveRetries retries => .ok (t.setTcpKeepaliveRetries retries)
  | .concurrencyLimit limit => .ok (t.setConcurrencyLimit limit)
  | .rateLimit limit dur => .ok (t.setRateLimit limit dur)
  | .initialStreamWindowSize sz => .ok (t.setInitialStreamWindowSize sz)
  | .initialConnectionWindowSize sz => .ok (t.setInitialConnectionWindowSize sz)
  | .bufferSize sz => .ok (t.setBufferSize sz)
  | .tlsConfig tlsConfig => t.setTlsConfig tlsConfig
  | .tcpNodelay enabled => .ok (t.setTcpNodelay enabled)
  | .http2KeepAliveInterval interval => .ok (t.setHttp2KeepAliveInterval interval)
  | .keepAliveTimeout dur => .ok (t.setKeepAliveTimeout dur)
  | .keepAliveWhileIdle enabled => .ok (t.setKeepAliveWhileIdle enabled)
  | .http2AdaptiveWindow enabled => .ok (t.setHttp2AdaptiveWindow enabled)
  | .http2MaxHeaderListSize size => .ok (t.setHttp2MaxHeaderListSize size)
  | .localAddress ip => .ok (t.setLocalAddress ip)

end EndpointTemplate

end SodaPool
