import SodaPool.Containers
import SodaPool.TemplateBuild

/-!
# The settings of an endpoint

A setter writes one field of the template, and `build` makes one call for each field. So what an
endpoint is set up with is what its field was set to last, for every field by itself.
-/

namespace SodaPool

open Containers Traversal

variable {HeaderValue ClientTlsConfig : Type} {c : Crates HeaderValue ClientTlsConfig}

/-- The fields of a template but for its URL. -/
inductive Field
  | origin
  | userAgent
  | timeout
  | tlsConfig
  | connectTimeout
  | tcpKeepalive
  | tcpKeepaliveInterval
  | tcpKeepaliveRetries
  | concurrencyLimit
  | rateLimit
  | initialStreamWindowSize
  | initialConnectionWindowSize
  | bufferSize
  | tcpNodelay
  | http2KeepAliveInterval
  | keepAliveTimeout
  | keepAliveWhileIdle
  | http2AdaptiveWindow
  | http2MaxHeaderListSize
  | localAddress
  deriving DecidableEq

namespace Field

/-- In the order of `build`. -/
def all : List Field := [
  .origin,.userAgent,.timeout,.tlsConfig,.connectTimeout,.tcpKeepalive,.tcpKeepaliveInterval,
  .tcpKeepaliveRetries,.concurrencyLimit,.rateLimit,.initialStreamWindowSize,
  .initialConnectionWindowSize,.bufferSize,.tcpNodelay,.http2KeepAliveInterval,.keepAliveTimeout,
  .keepAliveWhileIdle,.http2AdaptiveWindow,.http2MaxHeaderListSize,.localAddress]

/-- What an endpoint is told when nothing was set. -/
def unset : Field → Option (Setting HeaderValue ClientTlsConfig)
  | .tcpKeepalive => some (.tcpKeepalive none)
  | .tcpKeepaliveInterval => some (.tcpKeepaliveInterval none)
  | .tcpKeepaliveRetries => some (.tcpKeepaliveRetries none)
  | .bufferSize => some (.bufferSize none)
  | .localAddress => some (.localAddress none)
  | _ => none

end Field

namespace SetterCall

/-- The field that is set. -/
def field : SetterCall HeaderValue ClientTlsConfig → Field
  | .userAgent _ => .userAgent
  | .origin _ => .origin
  | .timeout _ => .timeout
  | .connectTimeout _ => .connectTimeout
  | .tcpKeepalive _ => .tcpKeepalive
  | .tcpKeepaliveInterval _ => .tcpKeepaliveInterval
  | .tcpKeepaliveRetries _ => .tcpKeepaliveRetries
  | .concurrencyLimit _ => .concurrencyLimit
  | .rateLimit _ _ => .rateLimit
  | .initialStreamWindowSize _ => .initialStreamWindowSize
  | .initialConnectionWindowSize _ => .initialConnectionWindowSize
  | .bufferSize _ => .bufferSize
  | .tlsConfig _ => .tlsConfig
  | .tcpNodelay _ => .tcpNodelay
  | .http2KeepAliveInterval _ => .http2KeepAliveInterval
  | .keepAliveTimeout _ => .keepAliveTimeout
  | .keepAliveWhileIdle _ => .keepAliveWhileIdle
  | .http2AdaptiveWindow _ => .http2AdaptiveWindow
  | .http2MaxHeaderListSize _ => .http2MaxHeaderListSize
  | .localAddress _ => .localAddress

/-- What an endpoint is to be told for it. -/
def asks : SetterCall HeaderValue ClientTlsConfig → Option (Setting HeaderValue ClientTlsConfig)
  | .userAgent ua => ua.map .userAgent
  | .origin uri => some (.origin uri)
  | .timeout dur => some (.timeout dur)
  | .connectTimeout dur => some (.connectTimeout dur)
  | .tcpKeepalive dur => some (.tcpKeepalive dur)
  | .tcpKeepaliveInterval interval => some (.tcpKeepaliveInterval (some interval))
  | .tcpKeepaliveRetries retries => some (.tcpKeepaliveRetries (some retries))
  | .concurrencyLimit limit => some (.concurrencyLimit limit)
  | .rateLimit limit dur => some (.rateLimit limit dur)
  | .initialStreamWindowSize sz => sz.map .initialStreamWindowSize
  | .initialConnectionWindowSize sz => sz.map .initialConnectionWindowSize
  | .bufferSize sz => some (.bufferSize sz)
  | .tlsConfig config => some (.tlsConfig config)
  | .tcpNodelay enabled => some (.tcpNodelay enabled)
  | .http2KeepAliveInterval interval => some (.http2KeepAliveInterval interval)
  | .keepAliveTimeout dur => some (.keepAliveTimeout dur)
  | .keepAliveWhileIdle enabled => some (.keepAliveWhileIdle enabled)
  | .http2AdaptiveWindow enabled => some (.http2AdaptiveWindow enabled)
  | .http2MaxHeaderListSize size => some (.http2MaxHeaderListSize size)
  | .localAddress ip => some (.localAddress ip)

end SetterCall

namespace EndpointTemplate

/-- What `build` tells an endpoint for a field. -/
def setting (t : EndpointTemplate c) : Field → Option (Setting HeaderValue ClientTlsConfig)
  | .origin => t.origin.map .origin
  | .userAgent => t.userAgent.map .userAgent
  | .timeout => t.timeout.map .timeout
  | .tlsConfig => t.tlsConfig.map .tlsConfig
  | .connectTimeout => t.connectTimeout.map .connectTimeout
  | .tcpKeepalive => some (.tcpKeepalive t.tcpKeepalive)
  | .tcpKeepaliveInterval => some (.tcpKeepaliveInterval t.tcpKeepaliveInterval)
  | .tcpKeepaliveRetries => some (.tcpKeepaliveRetries t.tcpKeepaliveRetries)
  | .concurrencyLimit => t.concurrencyLimit.map .concurrencyLimit
  | .rateLimit => t.rateLimit.map (fun limited => .rateLimit limited.1 limited.2)
  | .initialStreamWindowSize => t.initStreamWindowSize.map .initialStreamWindowSize
  | .initialConnectionWindowSize => t.initConnectionWindowSize.map .initialConnectionWindowSize
  | .bufferSize => some (.bufferSize t.bufferSize)
  | .tcpNodelay => t.tcpNodelay.map .tcpNodelay
  | .http2KeepAliveInterval => t.http2KeepAliveInterval.map .http2KeepAliveInterval
  | .keepAliveTimeout => t.http2KeepAliveTimeout.map .keepAliveTimeout
  | .keepAliveWhileIdle => t.http2KeepAliveWhileIdle.map .keepAliveWhileIdle
  | .http2AdaptiveWindow => t.http2AdaptiveWindow.map .http2AdaptiveWindow
  | .http2MaxHeaderListSize => t.http2MaxHeaderListSize.map .http2MaxHeaderListSize
  | .localAddress => some (.localAddress t.localAddress)

theorem settings_eq (t : EndpointTemplate c) :
    t.settings = Field.all.flatMap (fun k => (t.setting k).toList) := rfl

theorem setting_of_new {url : Option Url} {t : EndpointTemplate c} (h : new c url = .ok t) :
    t.setting = Field.unset := by
  obtain ⟨url,rfl⟩ : ∃ u, url = some u := ⟨_,url_of_new h⟩
  have hurl : url = t.url := Option.some.inj (url_of_new h)
  subst hurl
  rw [new_of_accepts t.accepted] at h
  rw [← Except.ok.inj h]
  funext k
  cases k <;> rfl

/-- A setter writes its own field. -/
theorem setting_of_call {t t' : EndpointTemplate c} {s : SetterCall HeaderValue ClientTlsConfig}
    (h : t.call s = .ok t') : t'.setting = Function.update t.setting s.field s.asks := by
  funext k
  cases s with
  | userAgent ua =>
    cases ua with
    | none => cases h
    | some ua =>
      cases h
      cases k <;> rfl
  | tlsConfig config =>
    simp only [call,setTlsConfig] at h
    split at h
    · cases h
    · split at h
      · cases h
        cases k <;> rfl
      · cases h
  | _ =>
    cases h
    cases k <;> rfl

theorem setting_of_calls {t t' : EndpointTemplate c}
    {calls : List (SetterCall HeaderValue ClientTlsConfig)} (h : calls.foldlM call t = .ok t') :
    t'.setting = writeAll SetterCall.field SetterCall.asks t.setting calls := by
  induction calls generalizing t with
  | nil =>
    cases h
    rfl
  | cons s calls ih =>
    rw [List.foldlM_cons] at h
    obtain ⟨next,hnext,h⟩ := bind_ok_iff.mp h
    rw [ih h,setting_of_call hnext]
    rfl

/-- What was asked for a field last, by the calls of the setters. -/
def asked (calls : List (SetterCall HeaderValue ClientTlsConfig)) (k : Field) :
    Option (Setting HeaderValue ClientTlsConfig) :=
  ((calls.reverse.find? (fun s => decide (s.field = k))).map SetterCall.asks).getD k.unset

/-- After whatever setters have returned `Ok`, an endpoint is set up with what was asked for
each field last, and with nothing else; neither the setters of other fields nor the address
make a difference. -/
theorem settings_of_build {url : Option Url} {template t : EndpointTemplate c}
    (hnew : new c url = .ok template) {calls : List (SetterCall HeaderValue ClientTlsConfig)}
    (hcalls : calls.foldlM call template = .ok t) {ip : IpAddr}
    {endpoint : Endpoint HeaderValue ClientTlsConfig} (hbuild : t.build ip = some endpoint) :
    endpoint.settings = Field.all.flatMap (fun k => (asked calls k).toList) := by
  have hasked : t.setting = asked calls := by
    funext k
    rw [setting_of_calls hcalls,setting_of_new hnew]
    exact writeAll_apply SetterCall.field SetterCall.asks Field.unset calls k
  rw [(build_eq_some_iff.mp hbuild).2.2.2,settings_eq,hasked]

/-- The second timeout counts, and the window is as good as never set. -/
theorem settings_short : ∃ template t endpoint, new lenient (some (longUrl 0)) = .ok template ∧
    [.timeout 1000,.initialStreamWindowSize (some 1),.timeout 2000,
      .initialStreamWindowSize none].foldlM call template = .ok t ∧
    t.build localhost = some endpoint ∧
    endpoint.settings = [.timeout 2000,.tcpKeepalive none,.tcpKeepaliveInterval none,
      .tcpKeepaliveRetries none,.bufferSize none,.localAddress none] := by
  have hnew := new_of_accepts (accepts_longUrl (n := 0) (by decide))
  obtain ⟨t,hcalls,hurl⟩ : ∃ t : EndpointTemplate lenient, [.timeout 1000,
      .initialStreamWindowSize (some 1),.timeout 2000,.initialStreamWindowSize none].foldlM call
        {url := longUrl 0, accepted := accepts_longUrl (n := 0) (by decide)} = .ok t ∧
          t.url = longUrl 0 := ⟨_,rfl,rfl⟩
  have hsize : ((t.url.withIp localhost).asStr lenient.ipText).utf8ByteSize ≤ maxLen := by
    rw [hurl]
    decide
  have huri := (buildUri_eq_some_iff lenient_documented).mpr ⟨hsize,rfl⟩
  have hbuild : t.build localhost = some ⟨_,t.settings⟩ :=
    build_eq_some_iff.mpr ⟨huri,fun _ _ => rfl,fun _ _ => rfl,rfl⟩
  exact ⟨_,t,_,hnew,hcalls,hbuild,settings_of_build hnew hcalls hbuild⟩

end EndpointTemplate
end SodaPool
