import SodaPool.Lexicon
import SodaPool.Recognition
import SodaPool.TonicFile
import Mathlib.Data.List.Nodup
import Mathlib.Data.List.Perm.Basic

/-!
# The interface of a pooled client

Read by the parser, the functions of a pooled client are those of the client it was made
from, each followed by its variant with a policy. The constructors are not read. By their
names, two of the functions can be one.
-/

namespace SodaPool

open Syn Traversal

/-- What is added to the name of a method. -/
def retryTail : String := "_with_retry"

/-- The variant of a method that takes a policy. -/
def GrpcClientMethod.withRetry (m : GrpcClientMethod) : GrpcClientMethod :=
  {m with name := ⟨m.name.text ++ retryTail⟩}

/-- The functions of all `impl` blocks. -/
def functionNames (items : List Item) : List Ident :=
  (modImpls items).flatMap (fun b => (implFns b.items).map ImplItemFn.ident)

/-- The functions every pooled client has. -/
def constructorNames : List Ident := [⟨"new"⟩,⟨"new_from_endpoint"⟩]

section Methods

variable {identNew : String → Option Ident}

/-- Whatever its name and its body, a function of a method is read as that method. -/
theorem parseGrpcMethod_function (m : GrpcClientMethod) (name : Ident) (generics block : String) :
    parseGrpcMethod (m.function name generics block) = .ok {m with name := name} := by
  have hdeprecated : (m.function name generics block).attrs.any
      (fun attr => attr.path.getIdent = some ⟨"deprecated"⟩) = m.deprecated := by
    cases hd : m.deprecated <;> simp [GrpcClientMethod.function,hd,Path.plain,Path.getIdent]
  have hrequest : getIntoRequestType
      (.implTrait [.trait (.applied ["tonic"] "IntoRequest" [.type m.requestType])]) =
        .ok m.requestType :=
    TonicFile.getSegmentType_applied ["tonic"] "IntoRequest" m.requestType []
  simp only [parseGrpcMethod,hdeprecated]
  simp only [GrpcClientMethod.function,List.getElem?_cons_succ,List.getElem?_cons_zero,hrequest,
    getResultSuccessType,TonicFile.getSegmentType_applied,getTonicResponseType]
  rfl

theorem isGrpcMethod_function (m : GrpcClientMethod) (name : Ident) (generics block : String) :
    isGrpcMethod (m.function name generics block) = true := by
  simp [isGrpcMethod,GrpcClientMethod.function,firstTrait,Path.applied]

theorem findGrpcMethods_constructors (header : String) (selfTy : Ty) :
    findGrpcMethods ⟨header,selfTy,GrpcClientImpl.constructors⟩ = [] := rfl

section Generated

variable (hident : ∀ text ident, identNew text = some ident → ident.text = text)

include hident

/-- What a method is turned into. -/
theorem method_eq_some {m : GrpcClientMethod} {name : Ident} {fns : List ImplItem}
    (h : m.generatePooledVersion identNew name = some fns) :
    ∃ block blockWithRetry, fns = [.fn (m.function m.name "" block),
      .fn (m.function m.withRetry.name "<RP: soda_pool::RetryPolicy>" blockWithRetry)] := by
  obtain ⟨ident,hnew,hfns⟩ := Option.bind_eq_some_iff.mp h
  have heq : ident = m.withRetry.name := by
    obtain ⟨text⟩ := ident
    exact congrArg Ident.mk (hident _ _ hnew)
  subst heq
  cases hfns
  exact ⟨_,_,rfl⟩

/-- Two functions for every method, and both are found. -/
theorem implFns_generated {name : Ident} {ms : List GrpcClientMethod}
    {methods : List (List ImplItem)}
    (h : ms.mapM (fun m => m.generatePooledVersion identNew name) = some methods) :
    (implFns methods.flatten).map ImplItemFn.ident =
        ms.flatMap (fun m => [m.name,m.withRetry.name]) ∧
      ((implFns methods.flatten).filter isGrpcMethod).mapM parseGrpcMethod =
        .ok (ms.flatMap (fun m => [m,m.withRetry])) := by
  have hall := mapM_some_iff.mp h
  clear h
  induction hall with
  | nil => exact ⟨rfl,rfl⟩
  | @cons m fns ms methods hm _ ih =>
    obtain ⟨block,blockWithRetry,rfl⟩ := method_eq_some hident hm
    obtain ⟨hnames,hparsed⟩ := ih
    simp only [List.flatten_cons,List.cons_append,List.nil_append,implFns,List.filterMap_cons]
    simp only [implFns] at hnames hparsed
    constructor
    · simp only [List.map_cons,hnames,List.flatMap_cons,List.cons_append,List.nil_append]
      rfl
    · simp only [List.filter_cons,isGrpcMethod_function,List.mapM_cons,parseGrpcMethod_function,
        hparsed,if_true]
      rfl

theorem functionNames_generated {c : GrpcClientImpl} {items : List Item}
    (h : c.generatePooledVersion identNew = some items) :
    functionNames items = constructorNames ++
      c.methods.flatMap (fun m => [m.name,m.withRetry.name]) := by
  obtain ⟨methods,hmethods,rfl⟩ := impl_eq_some hident h
  rw [← (implFns_generated hident hmethods).1]
  simp only [functionNames,modImpls,GrpcClientImpl.poolStruct,GrpcClientImpl.poolImpl,
    List.filterMap_cons,List.filterMap_nil,List.flatMap_cons,List.flatMap_nil,List.append_nil]
  rfl

end Generated

/-- Nothing but the names can go wrong. -/
theorem exists_generated_iff {lex : Lexicon} {c : GrpcClientImpl} :
    (∃ items, c.generatePooledVersion lex.identNew = some items) ↔
      lex.Plain (c.name.text ++ "Pool") ∧ ∀ m ∈ c.methods, lex.Plain m.withRetry.name.text := by
  have hmethod (m : GrpcClientMethod) : (∃ fns, m.generatePooledVersion lex.identNew c.name =
      some fns) ↔ lex.Plain m.withRetry.name.text := by
    simp only [GrpcClientMethod.generatePooledVersion,Option.bind_eq_bind,Option.bind_eq_some_iff,
      Lexicon.identNew_eq_some,Option.pure_def,Option.some.injEq]
    exact ⟨fun ⟨_,_,h,_⟩ => h.1,fun h => ⟨_,_,⟨h,rfl⟩,rfl⟩⟩
  have hmethods := exists_mapM_some_iff (l := c.methods)
    (f := fun m => m.generatePooledVersion lex.identNew c.name)
  simp only [hmethod] at hmethods
  rw [← hmethods]
  simp only [GrpcClientImpl.generatePooledVersion,Option.bind_eq_bind,Option.bind_eq_some_iff,
    Lexicon.identNew_eq_some,Option.pure_def,Option.some.injEq]
  constructor
  · rintro ⟨_,_,⟨h,-⟩,methods,hm,-⟩
    exact ⟨h,methods,hm⟩
  · rintro ⟨h,methods,hm⟩
    exact ⟨_,_,⟨h,rfl⟩,methods,hm,rfl⟩

theorem plain_pool {lex : Lexicon} {text : String} (h : text ≠ "") :
    lex.Plain (text ++ "Pool") ↔ lex.Plain text :=
  Lexicon.plain_append_iff (by decide) h

theorem plain_withRetry {lex : Lexicon} {m : GrpcClientMethod} (h : m.name.text ≠ "") :
    lex.Plain m.withRetry.name.text ↔ lex.Plain m.name.text :=
  Lexicon.plain_append_iff (by decide) h

end Methods

/-- Whatever a client is called, and whatever its methods take and give: of the two `impl`
blocks that are made of it, the constructors are not read, and the functions are read as the
methods in their order, each followed by its variant with a policy. Under a plain name the
blocks are always made. -/
theorem interface_preserved (lex : Lexicon) (c : GrpcClientImpl)
    (hmethods : ∀ m ∈ c.methods, lex.Plain m.name.text) :
    (lex.Plain c.name.text → ∃ items, c.generatePooledVersion lex.identNew = some items) ∧
      ∀ items, c.generatePooledVersion lex.identNew = some items → ∃ constructors methods,
        modImpls items = [constructors,methods] ∧
        (implFns constructors.items).map ImplItemFn.ident = constructorNames ∧
        (findGrpcMethods constructors).mapM parseGrpcMethod = .ok [] ∧
        (findGrpcMethods methods).mapM parseGrpcMethod =
          .ok (c.methods.flatMap (fun m => [m,m.withRetry])) := by
  constructor
  · intro hname
    rw [exists_generated_iff]
    refine ⟨Lexicon.plain_append (by decide) hname,fun m hm => ?_⟩
    exact Lexicon.plain_append (by decide) (hmethods m hm)
  · intro items h
    obtain ⟨methods,hgenerated,rfl⟩ := impl_eq_some (fun _ _ => Lexicon.text_of_identNew) h
    have hfound := (implFns_generated (fun _ _ => Lexicon.text_of_identNew) hgenerated).2
    refine ⟨_,_,rfl,rfl,?_,hfound⟩
    rw [findGrpcMethods_constructors]
    rfl

/-- A method of the service `Echo`, by its name. -/
def echoMethod (name : String) (deprecated : Bool) : GrpcClientMethod :=
  ⟨⟨name⟩,deprecated,.path (.plain ["super","EchoRequest"]),.path (.plain ["super","EchoResponse"])⟩

/-- Two methods, one of them deprecated, are read back as four. -/
theorem interface_preserved_echo :
    ∃ items, (⟨⟨"EchoClient"⟩,[echoMethod "say" false,echoMethod "shout" true]⟩ :
      GrpcClientImpl).generatePooledVersion Lexicon.ascii.identNew = some items ∧
      ∃ constructors methods, modImpls items = [constructors,methods] ∧
        (findGrpcMethods methods).mapM parseGrpcMethod = .ok [echoMethod "say" false,
          echoMethod "say_with_retry" false,echoMethod "shout" true,
          echoMethod "shout_with_retry" true] := by
  obtain ⟨hmade,hread⟩ := interface_preserved Lexicon.ascii
    ⟨⟨"EchoClient"⟩,[echoMethod "say" false,echoMethod "shout" true]⟩ (by decide)
  obtain ⟨items,hitems⟩ := hmade (by decide)
  obtain ⟨constructors,methods,himpls,-,-,hmethods⟩ := hread items hitems
  exact ⟨items,hitems,constructors,methods,himpls,hmethods⟩

section Names

open List

/-- A text that does not end like a variant is the name of none. -/
theorem ne_withRetry {text : String} (h : ¬ retryTail.toList <:+ text.toList)
    (m : GrpcClientMethod) : (⟨text⟩ : Ident) ≠ m.withRetry.name := by
  intro heq
  refine h ⟨m.name.text.toList,?_⟩
  rw [← String.toList_append]
  exact (congrArg (fun i => i.text.toList) heq).symm

theorem withRetry_name_inj {m m' : GrpcClientMethod} (h : m.withRetry.name = m'.withRetry.name) :
    m.name = m'.name := by
  have htext : m.name.text ++ retryTail = m'.name.text ++ retryTail := congrArg Ident.text h
  rw [String.append_left_inj] at htext
  rwa [← Ident.mk.injEq] at htext

/-- The names of the methods and those of their variants, one family after the other. -/
theorem families_perm (methods : List GrpcClientMethod) :
    methods.map GrpcClientMethod.name ++ methods.map (fun m => m.withRetry.name) ~
      methods.flatMap (fun m => [m.name,m.withRetry.name]) := by
  have hretry : methods.flatMap (fun m => [m.withRetry.name]) =
      methods.map (fun m => m.withRetry.name) := map_eq_flatMap.symm
  rw [← hretry]
  exact map_append_flatMap_perm methods _ _

theorem families_disjoint_iff (methods : List GrpcClientMethod) :
    Disjoint (methods.map GrpcClientMethod.name) (methods.map (fun m => m.withRetry.name)) ↔
      ∀ m ∈ methods, ∀ m' ∈ methods, m'.name ≠ m.withRetry.name := by
  constructor
  · intro h m hm m' hm' heq
    exact h (mem_map.mpr ⟨m',hm',rfl⟩) (mem_map.mpr ⟨m,hm,heq.symm⟩)
  · intro h name hname hname'
    obtain ⟨m',hm',rfl⟩ := mem_map.mp hname
    obtain ⟨m,hm,heq⟩ := mem_map.mp hname'
    exact h m hm m' hm' heq.symm

/-- A constructor is never called like a variant. -/
theorem constructors_disjoint_iff {methods : List GrpcClientMethod}
    (hnew : ∀ m ∈ methods, m.name.text ≠ "new") :
    Disjoint constructorNames (methods.map GrpcClientMethod.name ++
      methods.map (fun m => m.withRetry.name)) ↔
      ∀ m ∈ methods, m.name.text ≠ "new_from_endpoint" := by
  constructor
  · intro h m hm heq
    have hmem : m.name ∈ constructorNames :=
      mem_cons_of_mem _ (mem_singleton.mpr (congrArg Ident.mk heq))
    exact h hmem (mem_append_left _ (mem_map_of_mem hm))
  · intro h name hname hname'
    have hname : name = ⟨"new"⟩ ∨ name = ⟨"new_from_endpoint"⟩ := by
      simpa [constructorNames] using hname
    rcases mem_append.mp hname' with hmem | hmem
    · obtain ⟨m,hm,rfl⟩ := mem_map.mp hmem
      rcases hname with heq | heq
      · exact hnew m hm (congrArg Ident.text heq)
      · exact h m hm (congrArg Ident.text heq)
    · obtain ⟨m,-,rfl⟩ := mem_map.mp hmem
      rcases hname with heq | heq
      · exact ne_withRetry (by decide) m heq.symm
      · exact ne_withRetry (by decide) m heq.symm

/-- The families meet in two ways only. -/
theorem names_nodup_iff {methods : List GrpcClientMethod}
    (hnodup : (methods.map GrpcClientMethod.name).Nodup)
    (hnew : ∀ m ∈ methods, m.name.text ≠ "new") :
    (constructorNames ++ methods.flatMap (fun m => [m.name,m.withRetry.name])).Nodup ↔
      (∀ m ∈ methods, m.name.text ≠ "new_from_endpoint") ∧
        ∀ m ∈ methods, ∀ m' ∈ methods, m'.name ≠ m.withRetry.name := by
  have hretry : (methods.map (fun m => m.withRetry.name)).Nodup := by
    refine Nodup.map_on ?_ (Nodup.of_map _ hnodup)
    intro m hm m' hm' heq
    exact inj_on_of_nodup_map hnodup hm hm' (withRetry_name_inj heq)
  have hconstructors : constructorNames.Nodup := by decide
  rw [((families_perm methods).append_left _).nodup_iff.symm,nodup_append',nodup_append',
    and_iff_right hconstructors,and_iff_right hnodup,and_iff_right hretry,
    families_disjoint_iff,constructors_disjoint_iff hnew,and_comm]

end Names

/-- Of a client whose methods have distinct names other than `new`, the functions that are
generated have distinct names just if no method is called like the second constructor and
none like the variant of another. -/
theorem functionNames_nodup_iff (lex : Lexicon) (c : GrpcClientImpl) (items : List Item)
    (hgenerated : c.generatePooledVersion lex.identNew = some items)
    (hnodup : (c.methods.map GrpcClientMethod.name).Nodup)
    (hnew : ∀ m ∈ c.methods, m.name.text ≠ "new") :
    (functionNames items).Nodup ↔ (∀ m ∈ c.methods, m.name.text ≠ "new_from_endpoint") ∧
      ∀ m ∈ c.methods, ∀ m' ∈ c.methods, m'.name.text ≠ m.name.text ++ "_with_retry" := by
  rw [functionNames_generated (fun _ _ => Lexicon.text_of_identNew) hgenerated,
    names_nodup_iff hnodup hnew]
  refine and_congr_right (fun _ => forall₄_congr (fun m _ m' _ => not_congr ?_))
  obtain ⟨⟨text⟩,_,_,_⟩ := m'
  exact Ident.mk.injEq _ _ ▸ Iff.rfl

theorem functionNames_nodup_echo : ∃ items,
    (⟨⟨"EchoClient"⟩,[echoMethod "say" false,echoMethod "shout" true]⟩ :
      GrpcClientImpl).generatePooledVersion Lexicon.ascii.identNew = some items ∧
      (functionNames items).Nodup := by
  refine ⟨_,rfl,?_⟩
  exact (functionNames_nodup_iff Lexicon.ascii
    ⟨⟨"EchoClient"⟩,[echoMethod "say" false,echoMethod "shout" true]⟩ _ rfl
    (by decide) (by decide)).mpr (by decide)

/-- A service with two calls, `Say` and `SayWithRetry`. -/
def sayTwice : List TonicFile.Part :=
  let rpc (name : String) : TonicFile.Rpc := ⟨⟨name⟩,[],false,
    .path (.plain ["super","EchoRequest"]),.path (.plain ["super","EchoResponse"]),false,false⟩
  [.client ⟨"Echo","echo",[rpc "say",rpc "say_with_retry"]⟩]

/-- The file is read without complaint, and `say_with_retry` is generated twice. -/
theorem functionNames_collide : ¬ ∀ (lex : Lexicon) (file : File) (modules : List GrpcClientModule),
    parseClientModules file = .ok modules → ∀ m ∈ modules, ∀ c ∈ m.clients,
      (c.methods.map GrpcClientMethod.name).Nodup →
      (∀ method ∈ c.methods, method.name.text ≠ "new") →
      ∀ items, c.generatePooledVersion lex.identNew = some items → (functionNames items).Nodup := by
  intro h
  have hnodup := h Lexicon.ascii (TonicFile.encode (fun _ => "") sayTwice) _ rfl _
    List.mem_cons_self _ List.mem_cons_self (by decide) (by decide) _ rfl
  revert hnodup
  decide

end SodaPool
