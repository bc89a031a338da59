import SodaPool.Syn

/-!
# The parser of client files

It looks for modules, in them for `impl` blocks and in these for functions, by their
names and by the shape of their types. The results are the structures from which the
pooled clients are generated.
-/

namespace SodaPool

open Syn

inductive BuilderError
  | unexpectedStructure
  | missingConfiguration (key : String)
  | ioError (message : String)
  | synError
  | grpcClientNotFound
  deriving DecidableEq

abbrev BuilderResult := Except BuilderError

structure GrpcClientMethod where
  name : Ident
  deprecated : Bool
  requestType : Ty
  responseType : Ty
  deriving DecidableEq

structure GrpcClientImpl where
  name : Ident
  methods : List GrpcClientMethod
  deriving DecidableEq

structure GrpcClientModule where
  name : Ident
  clients : List GrpcClientImpl
  deriving DecidableEq

structure GrpcClientFile where
  fileModule : Ident
  clientModules : List GrpcClientModule
  deriving DecidableEq

/-- The type argument of the last segment, if that has a name. -/
def getSegmentType (name : String) (p : Path) : BuilderResult Ty :=
  match p.segments.getLast? with
  | some segment =>
    if segment.ident.text = name then
      match segment.firstType with
      | some ty => .ok ty
      | none => .error .unexpectedStructure
    else .error .unexpectedStructure
  | none => .error .unexpectedStructure

def getResultSuccessType : ReturnType → BuilderResult Ty
  | .type (.path p) => getSegmentType "Result" p
  | _ => .error .unexpectedStructure

def getTonicResponseType : Ty → BuilderResult Ty
  | .path p => getSegmentType "Response" p
  | _ => .error .unexpectedStructure

/-- Of several bounds, the first one counts. -/
def getIntoRequestType : Ty → BuilderResult Ty
  | .path p => getSegmentType "IntoRequest" p
  | .implTrait (.trait p::_) => getSegmentType "IntoRequest" p
  | _ => .error .unexpectedStructure

/-- The first bound that is a trait. -/
def firstTrait (bounds : List Bound) : Option Path :=
  bounds.findSome? (fun
    | .trait p => some p
    | .other _ => none)

/-- A method takes itself and something `tonic` turns into a request. A streamed request is
not supported. -/
def isGrpcMethod (method : ImplItemFn) : Bool :=
  match method.inputs with
  | .receiver _::.typed _ (.implTrait bounds)::_ =>
    match firstTrait bounds with
    | some p =>
      match p.segments with
      | ident1::ident2::_ => ident1.ident.text = "tonic" ∧ ident2.ident.text = "IntoRequest"
      | _ => false
    | none => false
  | _ => false

def parseGrpcMethod (method : ImplItemFn) : BuilderResult GrpcClientMethod :=
  match (method.inputs[1]? : Option FnArg) with
  | some (.typed _ requestArgType) => do
    let requestType ← getIntoRequestType requestArgType
    let responseSuccessType ← getResultSuccessType method.output
    let responseType ← getTonicResponseType responseSuccessType
    let deprecated := method.attrs.any (fun attr => attr.path.getIdent = some ⟨"deprecated"⟩)
    return ⟨method.ident,deprecated,requestType,responseType⟩
  | _ => .error .unexpectedStructure

def implFns (items : List ImplItem) : List ImplItemFn :=
  items.filterMap (fun
    | .fn item => some item
    | .other _ => none)

def findGrpcMethods (implItem : ItemImpl) : List ImplItemFn :=
  (implFns implItem.items).filter isGrpcMethod

def parseGrpcClientImplementation (implItem : ItemImpl) : BuilderResult GrpcClientImpl :=
  match implItem.selfTy with
  | .path p =>
    match p.segments.getLast? with
    | some segment => do
      let methods ← (findGrpcMethods implItem).mapM parseGrpcMethod
      return ⟨segment.ident,methods⟩
    | none => .error .unexpectedStructure
  | _ => .error .unexpectedStructure

/-- The self type is called a client. -/
def NamesClient : Ty → Prop
  | .path p => ∃ segment, p.segments.getLast? = some segment ∧ segment.ident.EndsWith "Client"
  | _ => False

instance (ty : Ty) : Decidable (NamesClient ty) :=
  match ty with
  | .path p =>
    match h : p.segments.getLast? with
    | some segment => decidable_of_iff (segment.ident.EndsWith "Client") (by simp [NamesClient,h])
    | none => isFalse (by simp [NamesClient,h])
  | .implTrait _ | .other _ => isFalse id

/-- One of the functions is called `new`. -/
def HasNew (items : List ImplItem) : Prop := ∃ item ∈ implFns items, item.ident.text = "new"

instance (items : List ImplItem) : Decidable (HasNew items) :=
  inferInstanceAs (Decidable (∃ item ∈ _, _))

def modImpls (items : List Item) : List ItemImpl :=
  items.filterMap (fun
    | .impl item => some item
    | _ => none)

def findClientInterfaceImplementations (module : ItemMod) : List ItemImpl :=
  ((modImpls (module.content.getD [])).filter (fun item => NamesClient item.selfTy)).filter
    (fun item => HasNew item.items)

def parseGrpcClientModule (clientModule : ItemMod) : BuilderResult GrpcClientModule := do
  let clients ← (findClientInterfaceImplementations clientModule).mapM parseGrpcClientImplementation
  return ⟨clientModule.ident,clients⟩

def fileMods (items : List Item) : List ItemMod :=
  items.filterMap (fun
    | .mod item => some item
    | _ => none)

def findClientModules (file : File) : List ItemMod :=
  (fileMods file.items).filter (fun module => module.ident.EndsWith "_client")

/-- What the parser makes of the contents of a file. -/
def parseClientModules (file : File) : BuilderResult (List GrpcClientModule) :=
  (findClientModules file).mapM parseGrpcClientModule

end SodaPool
