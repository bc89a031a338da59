import SodaPool.Interface

/-!
# Raw names

The parser takes names as they are. The generator makes new ones of their texts, and the
text of a raw name is not one to go on from.
-/

namespace SodaPool

open Syn Traversal

/-- The segments of a self type, if it is a path. -/
def selfSegments : Ty → List Segment
  | .path p => p.segments
  | _ => []

/-- The identifiers in an `impl` block can be read. -/
def LegalImpl (lex : Lexicon) (b : ItemImpl) : Prop :=
  (∀ segment ∈ selfSegments b.selfTy, lex.Legal segment.ident) ∧
    ∀ item ∈ implFns b.items, lex.Legal item.ident

instance (lex : Lexicon) (b : ItemImpl) : Decidable (LegalImpl lex b) :=
  inferInstanceAs (Decidable (_ ∧ _))

/-- A file with legal identifiers, as far as the parser looks at them. -/
def LegalFile (lex : Lexicon) (file : File) : Prop :=
  ∀ m ∈ fileMods file.items, ∀ b ∈ modImpls (m.content.getD []), LegalImpl lex b

instance (lex : Lexicon) (file : File) : Decidable (LegalFile lex file) :=
  inferInstanceAs (Decidable (∀ m ∈ _, ∀ b ∈ _, _))

/-- The functions in all modules of a file. -/
def fileFunctionNames (file : File) : List Ident :=
  (fileMods file.items).flatMap (fun m => functionNames (m.content.getD []))

/-- Neither the client nor one of its methods has a raw name. -/
def GrpcClientImpl.Unraw (c : GrpcClientImpl) : Prop :=
  ¬ c.name.Raw ∧ ∀ method ∈ c.methods, ¬ method.name.Raw

instance (c : GrpcClientImpl) : Decidable c.Unraw := inferInstanceAs (Decidable (_ ∧ _))

section Parsed

variable {lex : Lexicon}

theorem name_of_parseGrpcMethod {item : ImplItemFn} {method : GrpcClientMethod}
    (h : parseGrpcMethod item = .ok method) : method.name = item.ident := by
  rw [parseGrpcMethod] at h
  split at h
  · obtain ⟨_,-,h⟩ := bind_ok_iff.mp h
    obtain ⟨_,-,h⟩ := bind_ok_iff.mp h
    obtain ⟨_,-,h⟩ := bind_ok_iff.mp h
    cases h
    rfl
  · cases h

/-- The parser makes up no names. -/
theorem legal_of_parseImpl {b : ItemImpl} {c : GrpcClientImpl} (hlegal : LegalImpl lex b)
    (h : parseGrpcClientImplementation b = .ok c) :
    lex.Legal c.name ∧ ∀ method ∈ c.methods, lex.Legal method.name := by
  obtain ⟨hsegments,hfns⟩ := hlegal
  rw [parseGrpcClientImplementation] at h
  split at h
  case h_1 p hp =>
    rw [hp] at hsegments
    split at h
    case h_1 segment hsegment =>
      obtain ⟨methods,hmethods,hc⟩ := bind_ok_iff.mp h
      cases hc
      refine ⟨hsegments segment (List.mem_of_getLast? hsegment),fun method hmethod => ?_⟩
      obtain ⟨item,hitem,hparse⟩ := exists_of_mapM_ok hmethods method hmethod
      rw [name_of_parseGrpcMethod hparse]
      exact hfns item (List.mem_filter.mp hitem).1
    case h_2 => cases h
  case h_2 => cases h

theorem legal_of_parse {file : File} {modules : List GrpcClientModule}
    (hlegal : LegalFile lex file) (h : parseClientModules file = .ok modules) :
    ∀ m ∈ modules, ∀ c ∈ m.clients,
      lex.Legal c.name ∧ ∀ method ∈ c.methods, lex.Legal method.name := by
  intro m hm c hc
  obtain ⟨module,hmodule,hparse⟩ := exists_of_mapM_ok h m hm
  obtain ⟨clients,hclients,heq⟩ := bind_ok_iff.mp hparse
  cases heq
  obtain ⟨b,hb,hparse⟩ := exists_of_mapM_ok hclients c hc
  have himpl := (List.mem_filter.mp (List.mem_filter.mp hb).1).1
  exact legal_of_parseImpl (hlegal module (List.mem_filter.mp hmodule).1 b himpl) hparse

end Parsed

section Generated

variable {lex : Lexicon}

theorem ne_empty_of_legal {i : Ident} (h : lex.Legal i) : i.text ≠ "" := by
  intro hempty
  rcases h with hplain | ⟨text,htext,-⟩
  · rw [hempty] at hplain
    exact hplain
  · rw [hempty] at htext
    have hlength := congrArg (fun t => t.toList.length) htext
    simp at hlength

/-- Without raw names, and only then, a client goes through. -/
theorem exists_generated_iff_unraw {c : GrpcClientImpl} (hname : lex.Legal c.name)
    (hmethods : ∀ method ∈ c.methods, lex.Legal method.name) :
    (∃ items, c.generatePooledVersion lex.identNew = some items) ↔ c.Unraw := by
  rw [exists_generated_iff,plain_pool (ne_empty_of_legal hname),hname.plain_iff_not_raw]
  refine and_congr_right (fun _ => forall₂_congr (fun method hmethod => ?_))
  have hlegal := hmethods method hmethod
  rw [plain_withRetry (ne_empty_of_legal hlegal),hlegal.plain_iff_not_raw]

theorem exists_file_iff {f : GrpcClientFile} :
    (∃ tokens, f.generatePooledVersion lex.identNew = some tokens) ↔
      ∀ m ∈ f.clientModules, ∀ c ∈ m.clients,
        ∃ items, c.generatePooledVersion lex.identNew = some items := by
  have hmodule (m : GrpcClientModule) :
      (∃ item, m.generatePooledVersion lex.identNew f.fileModule = some item) ↔
        ∀ c ∈ m.clients, ∃ items, c.generatePooledVersion lex.identNew = some items := by
    rw [← exists_mapM_some_iff]
    simp only [GrpcClientModule.generatePooledVersion,Option.bind_eq_bind,
      Option.bind_eq_some_iff,Option.pure_def,Option.some.injEq]
    exact ⟨fun ⟨_,clients,h,_⟩ => ⟨clients,h⟩,fun ⟨clients,h⟩ => ⟨_,clients,h,rfl⟩⟩
  have hmodules := exists_mapM_some_iff (l := f.clientModules)
    (f := fun m => m.generatePooledVersion lex.identNew f.fileModule)
  simp only [hmodule] at hmodules
  rw [← hmodules]
  simp only [GrpcClientFile.generatePooledVersion,Option.bind_eq_bind,Option.bind_eq_some_iff,
    Option.pure_def,Option.some.injEq]
  exact ⟨fun ⟨_,modules,h,_⟩ => ⟨modules,h⟩,fun ⟨modules,h⟩ => ⟨_,modules,h,rfl⟩⟩

theorem mem_functionNames {items : List Item} {i : Ident} :
    i ∈ functionNames items ↔ ∃ b, .impl b ∈ items ∧ ∃ item ∈ implFns b.items, item.ident = i := by
  simp [functionNames,mem_modImpls]

/-- What is defined for a client is defined in the file. -/
theorem mem_fileFunctionNames {f : GrpcClientFile} {tokens : File}
    (h : f.generatePooledVersion lex.identNew = some tokens) {m : GrpcClientModule}
    (hm : m ∈ f.clientModules) {c : GrpcClientImpl} (hc : c ∈ m.clients)
    {method : GrpcClientMethod} (hmethod : method ∈ c.methods) :
    method.withRetry.name ∈ fileFunctionNames tokens := by
  obtain ⟨modules,hmodules,htokens⟩ := Option.bind_eq_some_iff.mp h
  cases htokens
  obtain ⟨item,hitem,hm⟩ := mem_of_mapM_some hmodules hm
  obtain ⟨clients,hclients,heq⟩ := Option.bind_eq_some_iff.mp hm
  cases heq
  obtain ⟨items,hitems,hc⟩ := mem_of_mapM_some hclients hc
  have hnames := functionNames_generated (fun _ _ => Lexicon.text_of_identNew) hc
  have hmem : method.withRetry.name ∈ functionNames items := by
    rw [hnames]
    refine List.mem_append_right _ (List.mem_flatMap.mpr ⟨method,hmethod,?_⟩)
    exact List.mem_cons_of_mem _ List.mem_cons_self
  obtain ⟨b,hb,hfn⟩ := mem_functionNames.mp hmem
  refine List.mem_flatMap.mpr ⟨_,(mem_fileMods _ _).mpr (List.mem_cons_of_mem _ hitem),?_⟩
  refine mem_functionNames.mpr ⟨b,List.mem_cons_of_mem _ ?_,hfn⟩
  exact List.mem_flatten.mpr ⟨items,hitems,hb⟩

end Generated

/-- Of a file that is read, with legal identifiers, pooled clients are generated, and a plain
identifier is there for every variant with a policy, just if no client and no method of one
has a raw name. -/
theorem generated_iff_unraw (lex : Lexicon) (file : File) (modules : List GrpcClientModule)
    (fileModule : Ident) (hlegal : LegalFile lex file)
    (hparse : parseClientModules file = .ok modules) :
    (∃ tokens, (⟨fileModule,modules⟩ : GrpcClientFile).generatePooledVersion lex.identNew =
        some tokens ∧
      ∀ m ∈ modules, ∀ c ∈ m.clients, ∀ method ∈ c.methods,
        method.withRetry.name ∈ fileFunctionNames tokens ∧ lex.Plain method.withRetry.name.text) ↔
      ∀ m ∈ modules, ∀ c ∈ m.clients, c.Unraw := by
  have hnames := legal_of_parse hlegal hparse
  have hmade : (∃ tokens, (⟨fileModule,modules⟩ : GrpcClientFile).generatePooledVersion
      lex.identNew = some tokens) ↔ ∀ m ∈ modules, ∀ c ∈ m.clients, c.Unraw := by
    rw [exists_file_iff]
    refine forall₂_congr (fun m hm => forall₂_congr (fun c hc => ?_))
    exact exists_generated_iff_unraw (hnames m hm c hc).1 (hnames m hm c hc).2
  rw [← hmade]
  refine ⟨fun ⟨tokens,h,_⟩ => ⟨tokens,h⟩,fun ⟨tokens,h⟩ => ⟨tokens,h,?_⟩⟩
  intro m hm c hc method hmethod
  refine ⟨mem_fileFunctionNames h hm hc hmethod,?_⟩
  exact (exists_generated_iff.mp (exists_file_iff.mp ⟨tokens,h⟩ m hm c hc)).2 method hmethod

/-- A service `Files` with one call. -/
def filesService (call : String) : File :=
  TonicFile.encode (fun _ => "") [.client ⟨"Files","files",[⟨⟨call⟩,[],false,
    .path (.plain ["super","Request"]),.path (.plain ["super","Response"]),false,false⟩]⟩]

theorem generated_open : ∃ modules tokens, parseClientModules (filesService "open") = .ok modules ∧
    (⟨⟨"files"⟩,modules⟩ : GrpcClientFile).generatePooledVersion Lexicon.ascii.identNew =
      some tokens := by
  obtain ⟨tokens,h,-⟩ := (generated_iff_unraw Lexicon.ascii (filesService "open") _ ⟨"files"⟩
    (by decide) rfl).mpr (by decide)
  exact ⟨_,tokens,rfl,h⟩

/-- A call named `Type` is the method `r#type`, for which there is no `r#type_with_retry`. -/
theorem generated_type : ¬ ∀ (lex : Lexicon) (file : File) (modules : List GrpcClientModule)
    (fileModule : Ident), LegalFile lex file → parseClientModules file = .ok modules →
      ∃ tokens, (⟨fileModule,modules⟩ : GrpcClientFile).generatePooledVersion lex.identNew =
        some tokens := by
  intro h
  obtain ⟨tokens,htokens⟩ := h Lexicon.ascii (filesService "r#type") _ ⟨"files"⟩ (by decide) rfl
  have hnone : none = some tokens := htokens
  cases hnone

end SodaPool
