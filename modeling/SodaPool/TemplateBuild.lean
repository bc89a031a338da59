import SodaPool.EndpointTemplate
import SodaPool.Traversal

/-!
# From a template to an endpoint

What was tried on the hostname holds for every address but for the length, and what was
tried on the local host holds for every address but for its name.
-/

namespace SodaPool

open Traversal

variable {HeaderValue ClientTlsConfig : Type} {c : Crates HeaderValue ClientTlsConfig}

namespace EndpointTemplate

theorem url_of_new {url : Option Url} {t : EndpointTemplate c} (h : new c url = .ok t) :
    url = some t.url := by
  rw [new.eq_def] at h
  split at h
  · cases h
  · split at h
    · split at h
      · cases h
      · split at h
        · cases h
        · cases h
          rfl
    · cases h
    · cases h

theorem new_of_accepts {url : Url} (h : c.Accepts url) :
    new c (some url) = .ok {url := url, accepted := h} := by
  obtain ⟨⟨name,hhost⟩,hbase,huri⟩ := h
  rw [new]
  split
  · split
    · rename_i hbase'
      rw [hbase] at hbase'
      cases hbase'
    · split
      · rename_i hnone
        rw [hnone] at huri
        cases huri
      · rfl
  · rename_i hhost'
    rw [hhost] at hhost'
    cases hhost'
  · rename_i hhost'
    rw [hhost] at hhost'
    cases hhost'

theorem domain_eq_some (t : EndpointTemplate c) : ∃ name, t.domain = some name := by
  obtain ⟨name,hhost⟩ := t.accepted.domain
  exact ⟨name,by rw [domain,hhost]⟩

section Calls

variable {t t' : EndpointTemplate c}

/-- The URL is not touched by any setter. -/
theorem url_of_call {s : SetterCall HeaderValue ClientTlsConfig} (h : t.call s = .ok t') :
    t'.url = t.url := by
  cases s with
  | userAgent userAgent =>
    cases userAgent with
    | none => cases h
    | some ua => cases h; rfl
  | tlsConfig config =>
    simp only [call,setTlsConfig] at h
    split at h
    · cases h
    · split at h
      · cases h; rfl
      · cases h
  | _ => cases h; rfl

theorem url_of_calls {calls : List (SetterCall HeaderValue ClientTlsConfig)}
    (h : calls.foldlM call t = .ok t') : t'.url = t.url := by
  induction calls generalizing t with
  | nil => cases h; rfl
  | cons s calls ih =>
    rw [List.foldlM_cons] at h
    obtain ⟨next,hnext,h⟩ := bind_ok_iff.mp h
    rw [ih h,url_of_call hnext]

end Calls

section Build

variable {t : EndpointTemplate c} {ip : IpAddr} {uri : Uri}

/-- Of a template that is built, the length is all that can be wrong with an address. -/
theorem buildUri_eq_some_iff (hc : c.Documented) : t.buildUri ip = some uri ↔
    ((t.url.withIp ip).asStr c.ipText).utf8ByteSize ≤ maxLen ∧
      uri = (t.url.withIp ip).toUri c.ipText := by
  obtain ⟨⟨name,hhost⟩,hbase,huri⟩ := t.accepted
  obtain ⟨found,hfound⟩ := Option.isSome_iff_exists.mp huri
  have hacceptable := ((hc.uriFromStr_eq_some t.url found (by rw [hhost]; rfl)).mp hfound).2.1
  have hset : c.setIpHost t.url ip = some (t.url.withIp ip) := by
    rw [hc.setIpHost_eq,if_neg (by simp [hbase])]
  rw [buildUri,hset]
  have hread := hc.uriFromStr_eq_some (t.url.withIp ip) uri rfl
  exact hread.trans (and_congr_right (fun _ => and_iff_right (hacceptable.withIp ip)))

/-- The calls on the endpoint, one for every setting that is there. -/
def settings (t : EndpointTemplate c) : List (Setting HeaderValue ClientTlsConfig) := [
  (t.origin.map .origin).toList,
  (t.userAgent.map .userAgent).toList,
  (t.timeout.map .timeout).toList,
  (t.tlsConfig.map .tlsConfig).toList,
  (t.connectTimeout.map .connectTimeout).toList,
  [.tcpKeepalive t.tcpKeepalive],
  [.tcpKeepaliveInterval t.tcpKeepaliveInterval],
  [.tcpKeepaliveRetries t.tcpKeepaliveRetries],
  (t.concurrencyLimit.map .concurrencyLimit).toList,
  (t.rateLimit.map (fun limited => .rateLimit limited.1 limited.2)).toList,
  (t.initStreamWindowSize.map .initialStreamWindowSize).toList,
  (t.initConnectionWindowSize.map .initialConnectionWindowSize).toList,
  [.bufferSize t.bufferSize],
  (t.tcpNodelay.map .tcpNodelay).toList,
  (t.http2KeepAliveInterval.map .http2KeepAliveInterval).toList,
  (t.http2KeepAliveTimeout.map .keepAliveTimeout).toList,
  (t.http2KeepAliveWhileIdle.map .keepAliveWhileIdle).toList,
  (t.http2AdaptiveWindow.map .http2AdaptiveWindow).toList,
  (t.http2MaxHeaderListSize.map .http2MaxHeaderListSize).toList,
  [.localAddress t.localAddress]].flatten

/-- The steps that can fail look at the URI and at one setting each. -/
theorem build_eq_some_iff {endpoint : Endpoint HeaderValue ClientTlsConfig} :
    t.build ip = some endpoint ↔ t.buildUri ip = some endpoint.uri ∧
      (∀ value ∈ t.userAgent, c.userAgentAccepts value) ∧
      (∀ config ∈ t.tlsConfig, c.tlsAccepts config endpoint.uri) ∧
      endpoint.settings = t.settings := by
  simp only [build,Option.bind_eq_bind,Option.bind_eq_some_iff,Endpoint.tryIf_userAgent,
    Endpoint.tryIf_tlsConfig,and_assoc,exists_and_left,exists_eq_left,Option.pure_def,
    Option.some.injEq]
  simp only [Endpoint.ext_iff,Endpoint.uri_set,Endpoint.uri_setIf,Endpoint.settings_set,
    Endpoint.settings_setIf,Endpoint.ofUri,settings,List.flatten_cons,List.flatten_nil,
    List.append_nil,List.nil_append,List.append_assoc]
  constructor
  · rintro ⟨uri,hfound,hagent,htls,rfl,hcalls⟩
    exact ⟨hfound,hagent,htls,hcalls.symm⟩
  · rintro ⟨hfound,hagent,htls,hcalls⟩
    exact ⟨endpoint.uri,hfound,hagent,htls,rfl,hcalls.symm⟩

end Build

/-- After whatever setters have returned `Ok`, and for whatever address: the template is built,
to the URI with that address, just if its URL is not too long with that address, and the
settings for TLS, if there are any, are accepted for it. -/
theorem build_iff (c : Crates HeaderValue ClientTlsConfig) (hc : c.Documented) (url : Url)
    (template t : EndpointTemplate c) (hnew : new c (some url) = .ok template)
    (calls : List (SetterCall HeaderValue ClientTlsConfig))
    (hcalls : calls.foldlM call template = .ok t) (ip : IpAddr) :
    (∃ endpoint, t.build ip = some endpoint ∧ endpoint.uri = (url.withIp ip).toUri c.ipText) ↔
      ((url.withIp ip).asStr c.ipText).utf8ByteSize ≤ maxLen ∧
        ∀ config ∈ t.tlsConfig, c.tlsAccepts config ((url.withIp ip).toUri c.ipText) := by
  have hurl : t.url = url := by
    rw [url_of_calls hcalls]
    exact (Option.some.inj (url_of_new hnew)).symm
  have huri : t.buildUri ip = some ((url.withIp ip).toUri c.ipText) ↔ _ := buildUri_eq_some_iff hc
  rw [hurl,and_iff_left rfl] at huri
  rw [← huri]
  constructor
  · rintro ⟨endpoint,hbuild,heq⟩
    obtain ⟨hfound,-,htls,-⟩ := build_eq_some_iff.mp hbuild
    rw [heq] at hfound htls
    exact ⟨hfound,htls⟩
  · rintro ⟨hfound,htls⟩
    refine ⟨⟨_,t.settings⟩,build_eq_some_iff.mpr ⟨hfound,?_,htls,rfl⟩,rfl⟩
    exact fun value _ => hc.userAgent value

section Sample

/-- An address as it is written in a URL; one with rows of zeros is not shortened. -/
def ipText : IpAddr → String
  | .v4 octets => ".".intercalate ([24,16,8,0].map (fun shift =>
      toString ((octets.toNat >>> shift) % 256)))
  | .v6 octets => "[" ++ ":".intercalate ([112,96,80,64,48,32,16,0].map (fun shift =>
      String.ofList (Nat.toDigits 16 ((octets.toNat >>> shift) % 65536)))) ++ "]"

/-- Crates that refuse no component. -/
def lenient : Crates Unit Unit where
  ipText := ipText
  setIpHost url ip := if url.cannotBeABase then none else some (url.withIp ip)
  accepts _ _ := true
  uriFromStr url := if (url.asStr ipText).utf8ByteSize ≤ maxLen then some (url.toUri ipText) else none
  userAgentAccepts _ := true
  tlsAccepts _ _ := true

theorem lenient_documented : lenient.Documented where
  setIpHost_eq _ _ := rfl
  uriFromStr_eq_some url uri _ := by
    have hacceptable : lenient.Acceptable url :=
      ⟨rfl,fun _ _ => rfl,fun _ _ => rfl,fun _ _ => rfl,rfl,fun _ _ => rfl,fun _ _ => rfl⟩
    change (if _ then _ else _) = _ ↔ _
    rw [Option.ite_none_right_eq_some,Option.some.injEq,and_iff_right hacceptable,
      @eq_comm _ uri]
    rfl
  userAgent _ := rfl

/-- `http://a` with a path of `n` letters. -/
def longUrl (n : ℕ) : Url :=
  ⟨"http",none,some (.domain "a"),none,"/" ++ String.ofList (List.replicate n 'a'),none,none,false⟩

theorem utf8ByteSize_replicate (n : ℕ) :
    (String.ofList (List.replicate n 'a')).utf8ByteSize = n := by
  induction n with
  | zero => rfl
  | succ n ih =>
    rw [List.replicate_succ',String.ofList_append,String.utf8ByteSize_append,ih]
    rfl

theorem size_longUrl (n : ℕ) (host : Host) :
    ({longUrl n with host := some host}.asStr ipText).utf8ByteSize =
      8 + (host.text ipText).utf8ByteSize + n := by
  have hscheme : "http".utf8ByteSize + ":".utf8ByteSize + "//".utf8ByteSize + "/".utf8ByteSize = 8 :=
    rfl
  simp only [Url.asStr,longUrl,Url.authority,Url.part,Option.map_none,Option.getD_none,
    String.utf8ByteSize_append,String.utf8ByteSize_empty,utf8ByteSize_replicate]
  omega

theorem accepts_longUrl {n : ℕ} (h : n ≤ 65525) : lenient.Accepts (longUrl n) := by
  refine ⟨⟨"a",rfl⟩,rfl,?_⟩
  have hsize : ((longUrl n).asStr ipText).utf8ByteSize = 8 + 1 + n := size_longUrl n (.domain "a")
  have hread : lenient.uriFromStr (longUrl n) = some ((longUrl n).toUri ipText) :=
    if_pos (by rw [hsize,maxLen]; omega)
  rw [hread]
  rfl

/-- A template with a timeout and a user agent is built for the local host. -/
theorem build_short : ∃ template t endpoint, new lenient (some (longUrl 0)) = .ok template ∧
    [.timeout 1000,.userAgent (some ())].foldlM call template = .ok t ∧
    t.build localhost = some endpoint ∧
    endpoint.uri = ⟨some "http",none,some "127.0.0.1",none,"/",none⟩ := by
  have hnew := new_of_accepts (accepts_longUrl (n := 0) (by decide))
  obtain ⟨endpoint,hbuild,huri⟩ := (build_iff lenient lenient_documented (longUrl 0) _ _ hnew
    [.timeout 1000,.userAgent (some ())] rfl localhost).mpr ⟨by decide,fun _ _ => rfl⟩
  exact ⟨_,_,endpoint,hnew,rfl,hbuild,huri⟩

/-- With `a` for a host the URL is just short enough, with the local host it is not. -/
theorem build_long : ¬ ∀ (HeaderValue ClientTlsConfig : Type)
    (c : Crates HeaderValue ClientTlsConfig), c.Documented →
    ∀ (url : Url) (template t : EndpointTemplate c), new c (some url) = .ok template →
    ∀ calls : List (SetterCall HeaderValue ClientTlsConfig), calls.foldlM call template = .ok t →
    ∀ ip, ∃ endpoint, t.build ip = some endpoint := by
  intro h
  obtain ⟨endpoint,hbuild⟩ := h Unit Unit lenient lenient_documented (longUrl 65525) _ _
    (new_of_accepts (accepts_longUrl le_rfl)) [] rfl localhost
  have hshort := ((buildUri_eq_some_iff lenient_documented).mp (build_eq_some_iff.mp hbuild).1).1
  have hsize : (((longUrl 65525).withIp localhost).asStr ipText).utf8ByteSize = _ :=
    size_longUrl 65525 (.ip localhost)
  have hlocal : ((Host.ip localhost).text ipText).utf8ByteSize = 9 := by decide
  rw [hlocal] at hsize
  have hlong : maxLen < (((longUrl 65525).withIp localhost).asStr ipText).utf8ByteSize := by
    rw [hsize]
    decide
  exact absurd hshort (Nat.not_le.mpr hlong)

end Sample

end EndpointTemplate

end SodaPool
