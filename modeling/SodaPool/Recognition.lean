import SodaPool.Generator
import SodaPool.Traversal

/-!
# What the parser finds in generated files

Nothing: the generator keeps the names of the modules that the parser looks for, but the
types in them are called pools. Two client files that generate the same tree under one name
have the same clients.
-/

namespace SodaPool

open Syn Traversal

/-- The parser recognises a client in the file. -/
def HasClient (file : File) : Prop :=
  ∃ m ∈ findClientModules file, findClientInterfaceImplementations m ≠ []

instance (file : File) : Decidable (HasClient file) :=
  inferInstanceAs (Decidable (∃ m ∈ _, ¬ _))

/-- Without a client, there is nothing to be parsed wrongly. -/
theorem parse_of_not_hasClient {file : File} (h : ¬ HasClient file) :
    parseClientModules file = .ok ((findClientModules file).map (fun m => ⟨m.ident,[]⟩)) := by
  apply mapM_ok_of_forall
  intro m hm
  have hnone : findClientInterfaceImplementations m = [] := by
    by_contra hne
    exact h ⟨m,hm,hne⟩
  rw [parseGrpcClientModule,hnone]
  rfl

theorem getSegmentType_raises (name : String) (p : Path) :
    Raises (· = .unexpectedStructure) (getSegmentType name p) := by
  rw [getSegmentType]
  split
  · split
    · split
      · exact raises_ok _ _
      · exact raises_error rfl
    · exact raises_error rfl
  · exact raises_error rfl

theorem parseGrpcMethod_raises (method : ImplItemFn) :
    Raises (· = .unexpectedStructure) (parseGrpcMethod method) := by
  rw [parseGrpcMethod]
  split
  · refine raises_bind ?_ (fun _ => raises_bind ?_ (fun _ => raises_bind ?_
      (fun _ => raises_ok _ _)))
    · rw [getIntoRequestType.eq_def]
      split <;> first | exact getSegmentType_raises _ _ | exact raises_error rfl
    · rw [getResultSuccessType.eq_def]
      split <;> first | exact getSegmentType_raises _ _ | exact raises_error rfl
    · rw [getTonicResponseType.eq_def]
      split <;> first | exact getSegmentType_raises _ _ | exact raises_error rfl
  · exact raises_error rfl

/-- The structure is all that can be wrong with parsed contents. -/
theorem parse_raises (file : File) : Raises (· = .unexpectedStructure) (parseClientModules file) := by
  have himpl (implItem : ItemImpl) :
      Raises (· = .unexpectedStructure) (parseGrpcClientImplementation implItem) := by
    rw [parseGrpcClientImplementation]
    split
    · split
      · exact raises_bind (raises_mapM parseGrpcMethod_raises _) (fun _ => raises_ok _ _)
      · exact raises_error rfl
    · exact raises_error rfl
  exact raises_mapM (fun m => raises_bind (raises_mapM himpl _) (fun _ => raises_ok _ _)) _

theorem clients_of_parse {m : ItemMod} {parsed : GrpcClientModule}
    (h : parseGrpcClientModule m = .ok parsed) :
    parsed.clients = [] ↔ findClientInterfaceImplementations m = [] := by
  obtain ⟨clients,hclients,hparsed⟩ := bind_ok_iff.mp h
  cases hparsed
  have hlength := (mapM_ok_iff.mp hclients).length_eq
  rw [← List.length_eq_zero_iff,← List.length_eq_zero_iff,hlength]

/-- The test by which the builder skips a file. -/
theorem hasClient_iff {file : File} {modules : List GrpcClientModule}
    (h : parseClientModules file = .ok modules) :
    HasClient file ↔ ∃ m ∈ modules, m.clients ≠ [] := by
  have hall := mapM_ok_iff.mp h
  clear h
  rw [HasClient]
  generalize findClientModules file = found at hall
  induction hall with
  | nil => simp
  | cons hparse _ ih => simp [ih,clients_of_parse hparse]

theorem mem_modImpls (items : List Item) (item : ItemImpl) :
    item ∈ modImpls items ↔ .impl item ∈ items := by
  rw [modImpls,List.mem_filterMap]
  constructor
  · rintro ⟨found,hfound,heq⟩
    cases found <;> cases heq
    exact hfound
  · exact fun h => ⟨_,h,rfl⟩

theorem mem_fileMods (items : List Item) (item : ItemMod) :
    item ∈ fileMods items ↔ .mod item ∈ items := by
  rw [fileMods,List.mem_filterMap]
  constructor
  · rintro ⟨found,hfound,heq⟩
    cases found <;> cases heq
    exact hfound
  · exact fun h => ⟨_,h,rfl⟩

section Generated

variable {identNew : String → Option Ident}
  (hident : ∀ text ident, identNew text = some ident → ident.text = text)

theorem not_endsWith_pool (name : String) : ¬ Ident.EndsWith ⟨name ++ "Pool"⟩ "Client" := by
  intro h
  have hpool : "Pool".toList <:+ (name ++ "Pool").toList := by simp
  have hsuffix : "Pool".toList <:+ "Client".toList :=
    List.suffix_of_suffix_length_le hpool h (by decide)
  revert hsuffix
  decide

theorem method_length {m : GrpcClientMethod} {name : Ident} {fns : List ImplItem}
    (h : m.generatePooledVersion identNew name = some fns) : fns.length = 2 := by
  obtain ⟨ident,-,hfns⟩ := Option.bind_eq_some_iff.mp h
  cases hfns
  rfl

theorem method_injective (name : Ident) (m m' : GrpcClientMethod) (fns : List ImplItem)
    (h : m.generatePooledVersion identNew name = some fns)
    (h' : m'.generatePooledVersion identNew name = some fns) : m = m' := by
  obtain ⟨ident,-,hfns⟩ := Option.bind_eq_some_iff.mp h
  obtain ⟨ident',-,hfns'⟩ := Option.bind_eq_some_iff.mp h'
  cases hfns
  obtain ⟨name,deprecated,requestType,responseType⟩ := m
  obtain ⟨name',deprecated',requestType',responseType'⟩ := m'
  simp only [GrpcClientMethod.function,Path.applied,Option.pure_def,Option.some.injEq,
    List.cons.injEq,ImplItem.fn.injEq,ImplItemFn.mk.injEq] at hfns'
  obtain ⟨⟨hattrs,-,hname,-,hinputs,houtput,-⟩,-⟩ := hfns'
  have hdeprecated : deprecated' = deprecated := by
    cases deprecated <;> cases deprecated' <;> simp_all
  simp only [List.map_cons,List.map_nil,List.cons_append,List.nil_append,List.cons.injEq,
    FnArg.typed.injEq,Ty.implTrait.injEq,Bound.trait.injEq,ReturnType.type.injEq,Ty.path.injEq,
    Syn.Path.mk.injEq,Segment.mk.injEq,Arguments.angleBracketed.injEq,GenericArgument.type.injEq,
    and_true,true_and] at hinputs houtput
  rw [hname,hdeprecated,hinputs,houtput]

include hident

/-- What a client is turned into. -/
theorem impl_eq_some {c : GrpcClientImpl} {items : List Item}
    (h : c.generatePooledVersion identNew = some items) :
    ∃ methods, c.methods.mapM (fun m => m.generatePooledVersion identNew c.name) = some methods ∧
      items = [GrpcClientImpl.poolStruct ⟨c.name.text ++ "Pool"⟩,
        GrpcClientImpl.poolImpl ⟨c.name.text ++ "Pool"⟩ GrpcClientImpl.constructors,
        GrpcClientImpl.poolImpl ⟨c.name.text ++ "Pool"⟩ methods.flatten] := by
  obtain ⟨ident,hnew,h⟩ := Option.bind_eq_some_iff.mp h
  obtain ⟨methods,hmethods,hitems⟩ := Option.bind_eq_some_iff.mp h
  have heq : ident = ⟨c.name.text ++ "Pool"⟩ := by
    obtain ⟨text⟩ := ident
    exact congrArg Ident.mk (hident _ _ hnew)
  subst heq
  cases hitems
  exact ⟨methods,hmethods,rfl⟩

theorem not_namesClient_of_generated {c : GrpcClientImpl} {items : List Item}
    (h : c.generatePooledVersion identNew = some items) {item : ItemImpl}
    (hitem : .impl item ∈ items) : ¬ NamesClient item.selfTy := by
  obtain ⟨methods,-,rfl⟩ := impl_eq_some hident h
  intro hnames
  have hpool : ¬ NamesClient (.path ⟨"",[⟨⟨c.name.text ++ "Pool"⟩,.none⟩]⟩) := by
    rintro ⟨segment,hsegment,hends⟩
    cases hsegment
    exact not_endsWith_pool _ hends
  simp only [GrpcClientImpl.poolStruct,GrpcClientImpl.poolImpl,List.mem_cons,reduceCtorEq,
    Item.impl.injEq,List.not_mem_nil,false_or,or_false] at hitem
  rcases hitem with rfl | rfl <;> exact hpool hnames

theorem findImpls_generated {m : GrpcClientModule} {fileModule : Ident} {found : ItemMod}
    (h : m.generatePooledVersion identNew fileModule = some (.mod found)) :
    findClientInterfaceImplementations found = [] := by
  obtain ⟨clients,hclients,hfound⟩ := Option.bind_eq_some_iff.mp h
  cases hfound
  apply List.eq_nil_iff_forall_not_mem.mpr
  intro item hitem
  have hfound := List.mem_filter.mp (List.mem_filter.mp hitem).1
  have hnames : NamesClient item.selfTy := of_decide_eq_true hfound.2
  obtain hother | hmem := List.mem_cons.mp ((mem_modImpls _ _).mp hfound.1)
  · cases hother
  · obtain ⟨items,hitems,hmem⟩ := List.mem_flatten.mp hmem
    obtain ⟨c,-,hc⟩ := exists_of_mapM_some hclients items hitems
    exact not_namesClient_of_generated hident hc hmem hnames

/-- A generated file has no client. -/
theorem not_hasClient_generated {f : GrpcClientFile} {tokens : File}
    (h : f.generatePooledVersion identNew = some tokens) : ¬ HasClient tokens := by
  obtain ⟨modules,hmodules,htokens⟩ := Option.bind_eq_some_iff.mp h
  cases htokens
  rintro ⟨found,hfound,hne⟩
  have hmem := (mem_fileMods _ _).mp (List.mem_filter.mp hfound).1
  obtain hother | hmem := List.mem_cons.mp hmem
  · cases hother
  · obtain ⟨m,-,hm⟩ := exists_of_mapM_some hmodules _ hmem
    exact hne (findImpls_generated hident hm)

theorem impl_injective (c c' : GrpcClientImpl) (items : List Item)
    (h : c.generatePooledVersion identNew = some items)
    (h' : c'.generatePooledVersion identNew = some items) : c = c' := by
  obtain ⟨methods,hmethods,rfl⟩ := impl_eq_some hident h
  obtain ⟨methods',hmethods',heq⟩ := impl_eq_some hident h'
  simp only [GrpcClientImpl.poolImpl,List.cons.injEq,Item.impl.injEq,ItemImpl.mk.injEq,
    Ty.path.injEq,Syn.Path.mk.injEq,Segment.mk.injEq,Ident.mk.injEq,and_true,true_and] at heq
  obtain ⟨-,-,htext,hflatten⟩ := heq
  have hname : c.name = c'.name := by
    have htext := (String.append_left_inj "Pool").mp htext
    rwa [← Ident.mk.injEq] at htext
  have hlength {name : Ident} {l : List GrpcClientMethod} {r : List (List ImplItem)}
      (hl : l.mapM (fun m => m.generatePooledVersion identNew name) = some r) :
      ∀ fns ∈ r, fns.length = 2 := by
    intro fns hfns
    obtain ⟨m,-,hm⟩ := exists_of_mapM_some hl fns hfns
    exact method_length hm
  have hblocks : methods = methods' :=
    flatten_injective (by decide) (hlength hmethods) (hlength hmethods') hflatten
  have hlists : c.methods = c'.methods := by
    rw [hblocks,hname] at hmethods
    exact mapM_some_injective (method_injective c'.name) hmethods hmethods'
  cases c
  cases c'
  exact congrArg₂ GrpcClientImpl.mk hname hlists

theorem module_injective (fileModule : Ident) (m m' : GrpcClientModule) (item : Item)
    (h : m.generatePooledVersion identNew fileModule = some item)
    (h' : m'.generatePooledVersion identNew fileModule = some item) : m = m' := by
  obtain ⟨clients,hclients,hitem⟩ := Option.bind_eq_some_iff.mp h
  obtain ⟨clients',hclients',hitem'⟩ := Option.bind_eq_some_iff.mp h'
  cases hitem
  simp only [Option.pure_def,Option.some.injEq,Item.mod.injEq,ItemMod.mk.injEq,List.cons.injEq]
    at hitem'
  obtain ⟨hname,-,hflatten⟩ := hitem'
  have hlength {l : List GrpcClientImpl} {r : List (List Item)}
      (hl : l.mapM (GrpcClientImpl.generatePooledVersion identNew) = some r) :
      ∀ items ∈ r, items.length = 3 := by
    intro items hitems
    obtain ⟨c,-,hc⟩ := exists_of_mapM_some hl items hitems
    obtain ⟨methods,-,rfl⟩ := impl_eq_some hident hc
    rfl
  have hblocks : clients' = clients :=
    flatten_injective (by decide) (hlength hclients') (hlength hclients) hflatten
  rw [hblocks] at hclients'
  cases m
  cases m'
  exact congrArg₂ GrpcClientModule.mk hname.symm
    (mapM_some_injective (impl_injective hident) hclients hclients')

/-- The clients can be read off what is generated from them. -/
theorem generated_injective {f f' : GrpcClientFile} {tokens : File}
    (hmodule : f.fileModule = f'.fileModule) (h : f.generatePooledVersion identNew = some tokens)
    (h' : f'.generatePooledVersion identNew = some tokens) : f.clientModules = f'.clientModules := by
  obtain ⟨modules,hmodules,htokens⟩ := Option.bind_eq_some_iff.mp h
  obtain ⟨modules',hmodules',htokens'⟩ := Option.bind_eq_some_iff.mp h'
  cases htokens
  have hitems : modules' = modules := by
    injection htokens' with hfile
    injection hfile with _ hitems
    exact (List.cons.inj hitems).2
  rw [hitems,← hmodule] at hmodules'
  exact mapM_some_injective (module_injective hident f.fileModule) hmodules hmodules'

end Generated

end SodaPool
