import SodaPool.Parser
import SodaPool.Traversal

/-!
# The layout of a client file

Messages come from `prost`, a client and a server module for each service from
`tonic-build`. A nested message puts a module in the file that has the name of the message
around it. The bodies of the functions are parameters: nobody reads them.
-/

namespace SodaPool
namespace TonicFile

open Syn

/-- What `prost` writes for messages and enumerations. -/
inductive ProstItem
  | decl (tokens : String)
  | enumeration (ident : Ident)
  | name (ident : Ident)
  | nested (message : Ident) (items : List ProstItem)

structure Rpc where
  name : Ident
  docs : List String
  deprecated : Bool
  requestType : Ty
  responseType : Ty
  clientStreaming : Bool
  serverStreaming : Bool

/-- A service by its name and its name in snake case. -/
structure Service where
  name : String
  snake : String
  rpcs : List Rpc

/-- The parts of a file; what a server module contains is left open. -/
inductive Part
  | message (item : ProstItem)
  | client (service : Service)
  | server (snake : String) (content : List Item)

section Encode

variable (block : Ident → String)

def doc (text : String) : Attribute := ⟨.plain ["doc"],"= " ++ text⟩

def mustUse : Attribute := ⟨.plain ["must_use"],""⟩

/-- A type that is a path of bare identifiers. -/
def named (segments : List String) : Ty := .path (.plain segments)

def function (attrs : List Attribute) (qualifiers name generics : String) (inputs : List FnArg)
    (output : Ty) : ImplItem :=
  .fn ⟨attrs,qualifiers,⟨name⟩,generics,inputs,.type output,block ⟨name⟩⟩

namespace ProstItem

mutual

def encode : ProstItem → Item
  | .decl tokens => .other tokens
  | .enumeration ident => .impl ⟨"",.path ⟨"",[⟨ident,.none⟩]⟩,[
      function block [doc "String value of the enum field names used in the ProtoBuf definition."]
        "pub" "as_str_name" "" [.receiver "&self"] (.other "&'static str"),
      function block [doc "Creates an enum from field names used in the ProtoBuf definition."]
        "pub" "from_str_name" "" [.typed "value" (.other "&str")]
        (.path (.applied ["core","option"] "Option" [.type (named ["Self"])]))]⟩
  | .name ident => .impl ⟨"::prost::Name for",.path ⟨"",[⟨ident,.none⟩]⟩,[
      .other "const NAME",.other "const PACKAGE",
      function block [] "" "full_name" "" [] (named ["prost","alloc","string","String"]),
      function block [] "" "type_url" "" [] (named ["prost","alloc","string","String"])]⟩
  | .nested message items => .mod ⟨message,some (encodeAll items)⟩

def encodeAll : List ProstItem → List Item
  | [] => []
  | item::items => item.encode::encodeAll items

end

end ProstItem

namespace Rpc

def requestArg (rpc : Rpc) : Ty :=
  .implTrait [.trait (if rpc.clientStreaming then
    .applied ["tonic"] "IntoStreamingRequest" [.assocType ⟨"Message"⟩ rpc.requestType]
  else .applied ["tonic"] "IntoRequest" [.type rpc.requestType])]

/-- What is in the response of a call. -/
def success (rpc : Rpc) : Ty :=
  if rpc.serverStreaming then .path (.applied ["tonic","codec"] "Streaming" [.type rpc.responseType])
  else rpc.responseType

def encode (rpc : Rpc) : ImplItemFn where
  attrs := rpc.docs.map doc ++ (if rpc.deprecated then [⟨.plain ["deprecated"],""⟩] else [])
  qualifiers := "pub async"
  ident := rpc.name
  generics := ""
  inputs := [.receiver "&mut self",.typed "request" rpc.requestArg]
  output := .type (.path (.applied ["std","result"] "Result" [
    .type (.path (.applied ["tonic"] "Response" [.type rpc.success])),
    .type (named ["tonic","Status"])]))
  block := block rpc.name

end Rpc

namespace Service

def clientIdent (s : Service) : Ident := ⟨s.name ++ "Client"⟩

/-- The client of the service over some channel. -/
def clientTy (s : Service) (channel : Ty) : Ty :=
  .path ⟨"",[⟨s.clientIdent,.angleBracketed [.type channel]⟩]⟩

def setter (docs : List String) (name param ty : String) : ImplItem :=
  function block (docs.map doc ++ [mustUse]) "pub" name ""
    [.receiver "mut self",.typed param (named [ty])] (named ["Self"])

def connectImpl (s : Service) : ItemImpl :=
  ⟨"",s.clientTy (named ["tonic","transport","Channel"]),[
    function block [doc "Attempt to create a new client by connecting to a given endpoint."]
      "pub async" "connect"
      "<D> where D: TryInto<tonic::transport::Endpoint>, D::Error: Into<StdError>"
      [.typed "dst" (named ["D"])]
      (.path (.applied [] "Result" [.type (named ["Self"]),
        .type (named ["tonic","transport","Error"])]))]⟩

/-- The functions that every generic client has. -/
def constructors (s : Service) : List ImplItem := [
  function block [] "pub" "new" "" [.typed "inner" (named ["T"])] (named ["Self"]),
  function block [] "pub" "with_origin" ""
    [.typed "inner" (named ["T"]),.typed "origin" (named ["Uri"])] (named ["Self"]),
  function block [] "pub" "with_interceptor" "<F> where F: tonic::service::Interceptor"
    [.typed "inner" (named ["T"]),.typed "interceptor" (named ["F"])]
    (s.clientTy (.path (.applied [] "InterceptedService"
      [.type (named ["T"]),.type (named ["F"])]))),
  setter block ["Compress requests with the given encoding."]
    "send_compressed" "encoding" "CompressionEncoding",
  setter block ["Enable decompressing responses."]
    "accept_compressed" "encoding" "CompressionEncoding",
  setter block ["Limits the maximum size of a decoded message.","Default: `4MB`"]
    "max_decoding_message_size" "limit" "usize",
  setter block ["Limits the maximum size of an encoded message.","Default: `usize::MAX`"]
    "max_encoding_message_size" "limit" "usize"]

def genericImpl (s : Service) : ItemImpl :=
  ⟨"<T> where T: tonic::client::GrpcService<tonic::body::Body>",s.clientTy (named ["T"]),
    s.constructors block ++ s.rpcs.map (fun rpc => .fn (rpc.encode block))⟩

def clientModule (s : Service) : ItemMod :=
  ⟨⟨s.snake ++ "_client"⟩,some [.other "use tonic::codegen::*;",
    .other "use tonic::codegen::http::Uri;",
    .other ("#[derive(Debug, Clone)] pub struct " ++ s.clientIdent.text ++
      "<T> \x7b inner: tonic::client::Grpc<T>, \x7d"),
    .impl (s.connectImpl block),.impl (s.genericImpl block)]⟩

end Service

def Part.encode : Part → Item
  | .message item => item.encode block
  | .client s => .mod (s.clientModule block)
  | .server snake content => .mod ⟨⟨snake ++ "_server"⟩,some content⟩

/-- The file of a package. -/
def encode (parts : List Part) : File :=
  ⟨"",parts.map (Part.encode block)⟩

end Encode

/-- What a call of the pooled client has to be generated from. -/
def Rpc.method (rpc : Rpc) : GrpcClientMethod :=
  ⟨rpc.name,rpc.deprecated,rpc.requestType,rpc.success⟩

/-- The description of a service: its unary and server-streaming calls. -/
def Service.described (s : Service) : GrpcClientModule :=
  ⟨⟨s.snake ++ "_client"⟩,[⟨s.clientIdent,
    (s.rpcs.filter (fun rpc => !rpc.clientStreaming)).map Rpc.method⟩]⟩

/-- The descriptions of the services, in the order of the file. -/
def described (parts : List Part) : List GrpcClientModule :=
  parts.filterMap (fun
    | .client s => some s.described
    | _ => none)

/-- What the parser makes of a part: a description, or of a nested message that is called a
client, an empty one. -/
def Part.parsed : Part → Option GrpcClientModule
  | .client s => some s.described
  | .message (.nested m _) => if m.EndsWith "_client" then some ⟨m,[]⟩ else none
  | _ => none

section Recovery

variable {block : Ident → String}

theorem endsWith_append (a tail : String) : Ident.EndsWith ⟨a ++ tail⟩ tail := by
  simp [Ident.EndsWith]

theorem not_endsWith_server (snake : String) : ¬ Ident.EndsWith ⟨snake ++ "_server"⟩ "_client" := by
  intro h
  have hserver : "_server".toList <:+ (snake ++ "_server").toList := by simp
  have heq : "_client".toList = "_server".toList :=
    (List.suffix_of_suffix_length_le h hserver (by decide)).eq_of_length (by decide)
  revert heq
  decide

theorem getSegmentType_applied (segments : List String) (name : String) (ty : Ty)
    (args : List GenericArgument) :
    getSegmentType name (.applied segments name (.type ty::args)) = .ok ty := by
  simp [getSegmentType,Path.applied,Segment.firstType]

/-- The attribute is found among any number of lines of documentation. -/
theorem deprecated_iff (rpc : Rpc) : ((rpc.docs.map doc ++
    (if rpc.deprecated then [⟨.plain ["deprecated"],""⟩] else [] : List Attribute)).any
      (fun attr => attr.path.getIdent = some ⟨"deprecated"⟩)) = rpc.deprecated := by
  have hdoc : (rpc.docs.map doc).any (fun attr => attr.path.getIdent = some ⟨"deprecated"⟩) = false := by
    rw [List.any_map,List.any_eq_false]
    intro text _
    simp [doc,Path.plain,Path.getIdent]
  rw [List.any_append,hdoc,Bool.false_or]
  cases rpc.deprecated with
  | true => simp [Path.plain,Path.getIdent]
  | false => rfl

theorem parseGrpcMethod_encode {rpc : Rpc} (hs : rpc.clientStreaming = false) :
    parseGrpcMethod (rpc.encode block) = .ok rpc.method := by
  have hrequest : getIntoRequestType rpc.requestArg = .ok rpc.requestType := by
    simp [Rpc.requestArg,hs,getIntoRequestType,getSegmentType_applied]
  simp only [parseGrpcMethod,Rpc.encode,List.getElem?_cons_succ,List.getElem?_cons_zero,hrequest,
    getResultSuccessType,getSegmentType_applied,getTonicResponseType,deprecated_iff]
  rfl

/-- A call with a streamed request is left out. -/
theorem isGrpcMethod_encode (rpc : Rpc) : isGrpcMethod (rpc.encode block) = !rpc.clientStreaming := by
  cases hs : rpc.clientStreaming <;>
    simp [isGrpcMethod,Rpc.encode,Rpc.requestArg,hs,firstTrait,Path.applied]

theorem findGrpcMethods_genericImpl (s : Service) : findGrpcMethods (s.genericImpl block) =
    (s.rpcs.filter (fun rpc => !rpc.clientStreaming)).map (Rpc.encode block) := by
  have hfns : implFns (s.rpcs.map (fun rpc => .fn (rpc.encode block))) =
      s.rpcs.map (Rpc.encode block) := by
    simp [implFns,List.filterMap_map]
  have hnone : (implFns (s.constructors block)).filter isGrpcMethod = [] := rfl
  have happend : implFns (s.genericImpl block).items =
      implFns (s.constructors block) ++ s.rpcs.map (Rpc.encode block) := by
    rw [Service.genericImpl,implFns,List.filterMap_append]
    exact congrArg _ hfns
  rw [findGrpcMethods,happend,List.filter_append,hnone,List.nil_append,List.filter_map]
  simp only [Function.comp_def,isGrpcMethod_encode]

/-- Of the two blocks of a client only the generic one has a `new`. -/
theorem findImpls_clientModule (s : Service) :
    findClientInterfaceImplementations (s.clientModule block) = [s.genericImpl block] := by
  have hname (channel : Ty) : NamesClient (s.clientTy channel) :=
    ⟨_,rfl,endsWith_append s.name "Client"⟩
  have hconnect : ¬ HasNew (s.connectImpl block).items := by
    simp [HasNew,Service.connectImpl,implFns,function]
  have hgeneric : HasNew (s.genericImpl block).items := by
    refine ⟨_,List.mem_filterMap.mpr ⟨_,List.mem_append_left _ List.mem_cons_self,rfl⟩,rfl⟩
  have himpls : modImpls ((s.clientModule block).content.getD []) =
      [s.connectImpl block,s.genericImpl block] := rfl
  have hconnectName : NamesClient (s.connectImpl block).selfTy := hname _
  have hgenericName : NamesClient (s.genericImpl block).selfTy := hname _
  rw [findClientInterfaceImplementations,himpls]
  simp [hconnectName,hgenericName,hconnect,hgeneric]

theorem parse_clientModule (s : Service) :
    parseGrpcClientModule (s.clientModule block) = .ok s.described := by
  have hmethods : (findGrpcMethods (s.genericImpl block)).mapM parseGrpcMethod =
      .ok ((s.rpcs.filter (fun rpc => !rpc.clientStreaming)).map Rpc.method) := by
    rw [findGrpcMethods_genericImpl,List.mapM_map]
    apply Traversal.mapM_ok_of_forall
    intro rpc hrpc
    exact parseGrpcMethod_encode (by simpa using (List.mem_filter.mp hrpc).2)
  have himpl : parseGrpcClientImplementation (s.genericImpl block) = .ok ⟨s.clientIdent,
      (s.rpcs.filter (fun rpc => !rpc.clientStreaming)).map Rpc.method⟩ := by
    simp only [parseGrpcClientImplementation]
    rw [show (s.genericImpl block).selfTy = s.clientTy (named ["T"]) from rfl]
    simp only [Service.clientTy,List.getLast?_singleton,hmethods]
    rfl
  rw [parseGrpcClientModule,findImpls_clientModule,List.mapM_cons,himpl]
  rfl

/-- No block of `prost` has a `new`. -/
theorem not_hasNew_encodeAll (items : List ProstItem) :
    ∀ item ∈ modImpls (ProstItem.encodeAll block items), ¬ HasNew item.items := by
  induction items with
  | nil => exact fun _ h => absurd h List.not_mem_nil
  | cons item items ih =>
    cases item with
    | decl tokens => exact ih
    | nested message items => exact ih
    | enumeration ident =>
      intro item hitem
      rcases List.mem_cons.mp hitem with rfl | hitem
      · simp [HasNew,implFns,function]
      · exact ih item hitem
    | name ident =>
      intro item hitem
      rcases List.mem_cons.mp hitem with rfl | hitem
      · simp [HasNew,implFns,function]
      · exact ih item hitem

theorem parse_nested (message : Ident) (items : List ProstItem) :
    parseGrpcClientModule ⟨message,some (ProstItem.encodeAll block items)⟩ = .ok ⟨message,[]⟩ := by
  have hnone : findClientInterfaceImplementations
      ⟨message,some (ProstItem.encodeAll block items)⟩ = [] := by
    rw [findClientInterfaceImplementations,List.filter_eq_nil_iff]
    intro item hitem
    simpa using not_hasNew_encodeAll items item (List.mem_filter.mp hitem).1
  rw [parseGrpcClientModule,hnone]
  rfl

/-- One part after the other. -/
theorem parse_cons {part : Part} {parts : List Part} {rest : List GrpcClientModule}
    (hrest : parseClientModules (encode block parts) = .ok rest) :
    parseClientModules (encode block (part::parts)) = .ok (part.parsed.toList ++ rest) := by
  have hkept {m : ItemMod} {parsed : GrpcClientModule} (hpart : part.encode block = .mod m)
      (hm : m.ident.EndsWith "_client") (hparse : parseGrpcClientModule m = .ok parsed) :
      parseClientModules (encode block (part::parts)) = .ok (parsed::rest) := by
    have hfind : findClientModules (encode block (part::parts)) =
        m::findClientModules (encode block parts) := by
      simp [findClientModules,encode,fileMods,hpart,hm]
    rw [parseClientModules] at hrest
    rw [parseClientModules,hfind,List.mapM_cons,hparse,hrest]
    rfl
  have hskipped (hpart : ∀ m, part.encode block = .mod m → ¬ m.ident.EndsWith "_client") :
      parseClientModules (encode block (part::parts)) = .ok rest := by
    have hfind : findClientModules (encode block (part::parts)) =
        findClientModules (encode block parts) := by
      cases hp : part.encode block with
      | mod m => simp [findClientModules,encode,fileMods,hp,hpart m hp]
      | impl item => simp [findClientModules,encode,fileMods,hp]
      | other tokens => simp [findClientModules,encode,fileMods,hp]
    rw [parseClientModules,hfind]
    exact hrest
  cases part with
  | client s => exact hkept rfl (endsWith_append s.snake "_client") (parse_clientModule s)
  | server snake content =>
    apply hskipped
    rintro m hm
    cases hm
    exact not_endsWith_server snake
  | message item =>
    cases item with
    | nested m items =>
      by_cases hm : m.EndsWith "_client"
      · rw [Part.parsed,if_pos hm]
        exact hkept rfl hm (parse_nested m items)
      · rw [Part.parsed,if_neg hm]
        apply hskipped
        rintro m' hm'
        cases hm'
        exact hm
    | decl tokens => exact hskipped (fun m hm => by cases hm)
    | enumeration ident => exact hskipped (fun m hm => by cases hm)
    | name ident => exact hskipped (fun m hm => by cases hm)

end Recovery

/-- Without the modules that have no client, the descriptions of the services are left. -/
theorem filter_parsed (parts : List Part) : (parts.filterMap Part.parsed).filter
    (fun m => !m.clients.isEmpty) = described parts := by
  have hpart (part : Part) : part.parsed.toList.filter (fun m => !m.clients.isEmpty) =
      described [part] := by
    cases part with
    | client s => rfl
    | server snake content => rfl
    | message item =>
      cases item with
      | nested m items =>
        by_cases hm : m.EndsWith "_client" <;> simp [Part.parsed,hm,described]
      | _ => rfl
  induction parts with
  | nil => rfl
  | cons part parts ih =>
    have hcons : described (part::parts) = described [part] ++ described parts := by
      rw [described,← List.singleton_append,List.filterMap_append]
      rfl
    have hparsed : (part::parts).filterMap Part.parsed =
        part.parsed.toList ++ parts.filterMap Part.parsed := by
      cases hp : part.parsed <;> simp [hp]
    rw [hcons,hparsed,List.filter_append,hpart,ih]

/-- The parser recovers the services: in the order of the file, one module for each with one
client, whose methods are the unary and the server-streaming calls as they were described.
Beside these it makes an empty module of every nested message that is called a client. -/
theorem parse_encode (block : Ident → String) (parts : List Part) :
    parseClientModules (encode block parts) = .ok (parts.filterMap Part.parsed) ∧
      (parts.filterMap Part.parsed).filter (fun m => !m.clients.isEmpty) = described parts := by
  refine ⟨?_,filter_parsed parts⟩
  induction parts with
  | nil => rfl
  | cons part parts ih =>
    rw [parse_cons ih]
    cases hp : part.parsed <;> simp [hp]

/-- A message `HttpClient` with a nested message, and a service with one call. -/
def httpClient : List Part :=
  [.message (.nested ⟨"http_client"⟩ [.decl "pub struct Options \x7b\x7d"]),
    .client ⟨"Health","health",[⟨⟨"is_alive"⟩,[],true,named ["super","Request"],
      named ["super","Response"],false,false⟩]⟩]

/-- The description of the services alone is not what comes back. -/
theorem parse_httpClient : ¬ ∀ (block : Ident → String) (parts : List Part),
    parseClientModules (encode block parts) = .ok (described parts) := by
  intro h
  have hparsed := congrArg (fun r => r.toOption.map List.length) (h (fun _ => "") httpClient)
  revert hparsed
  decide

end TonicFile
end SodaPool
