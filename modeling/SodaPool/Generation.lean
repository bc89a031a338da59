import SodaPool.Builder
import SodaPool.Recognition
import SodaPool.Transition

/-!
# What the builder does with an entry

An entry that is no source is passed over. For a source, the file with its stem and the
extension `rs` is read; with clients in it, the output is written, without, nothing happens.
-/

namespace SodaPool
namespace Build

open Syn OsPath Traversal Transition SodaPoolBuilder

namespace Toolchain

/-- What is relied on: a printed file reads back as it was, tokens are read as the tree they
stand for, and an identifier has the text it is made of. -/
structure Faithful (tc : Toolchain) : Prop where
  roundTrip : ∀ tokens file, tc.parse2 tokens = some file →
    tc.parseFile (header ++ tc.unparse file) = some file
  rereads : ∀ tokens file, tc.parse2 tokens = some file → file = tokens
  identText : ∀ text ident, tc.identNew text = some ident → ident.text = text

end Toolchain

/-- A file that the builder looks at. -/
def Source (d : Disk) (n : FileName) : Prop := n.IsRs ∧ ∃ contents, d.node n = some (.file contents)

section Entries

variable (tc : Toolchain)

/-- The stem as the name of a module. -/
def moduleOf (n : FileName) : Option Ident := n.fileStem.toStr.bind tc.parseIdent

def treeOf : Option Node → Option File
  | some (.file (.ok text)) => tc.parseFile text
  | _ => none

/-- What an entry is read as. -/
def tree (d : Disk) (n : FileName) : Option File := treeOf tc (d.node n)

/-- The text that comes from the contents under the name of the entry. -/
def Generates (n : FileName) (t : File) (text : String) : Prop :=
  ∃ fileModule clientModules, moduleOf tc n = some fileModule ∧
    parseClientModules t = .ok clientModules ∧
    formatted tc ⟨fileModule,clientModules⟩ = .ok text

/-- How an entry is left behind. -/
inductive Turn (d : Disk) (n : FileName) : Disk → Prop
  | passed (h : ¬ Source d n) : Turn d n d
  | clientless {t : File} (hsource : Source d n) (hmodule : (moduleOf tc n).isSome)
      (htree : tree tc d n.withExtensionRs = some t) (hno : ¬ HasClient t) : Turn d n d
  | generated {t : File} {text : String} (hsource : Source d n)
      (htree : tree tc d n.withExtensionRs = some t) (hclient : HasClient t)
      (htext : Generates tc n t text) (hdir : d.node (outputFile n) ≠ some .directory) :
      Turn d n (d.write (outputFile n) text)

variable {tc}

theorem okOr_ok_iff {α : Type} {e : Failure} {o : Option α} {a : α} :
    okOr e o = .ok a ↔ o = some a := by
  cases o <;> simp [okOr]

theorem mapError_ok_iff {ε ε' α : Type} {f : ε → ε'} {x : Except ε α} {a : α} :
    x.mapError f = .ok a ↔ x = .ok a := by
  cases x <;> simp [Except.mapError]

theorem ne_none_of_treeOf {o : Option Node} {t : File} (h : treeOf tc o = some t) : o ≠ none := by
  rintro rfl
  cases h

theorem parse_ok_iff {dir : OsStr} {d : Disk} {n : FileName} {f : GrpcClientFile} :
    parseGrpcClientFile tc dir d n = .ok f ↔ ∃ t, tree tc d n = some t ∧
      moduleOf tc n = some f.fileModule ∧ parseClientModules t = .ok f.clientModules := by
  obtain ⟨fileModule,clientModules⟩ := f
  rw [parseGrpcClientFile,tree]
  rcases d.node n with _ | _ | contents
  · simp [treeOf]
  · simp [treeOf]
  · simp only [bind_ok_iff,okOr_ok_iff,mapError_ok_iff,moduleOf,Option.bind_eq_some_iff]
    cases contents with
    | error message => simp [treeOf]
    | ok text =>
      constructor
      · rintro ⟨name,hname,ident,hident,raw,hraw,t,ht,modules,hmodules,heq⟩
        cases hraw
        cases heq
        exact ⟨t,ht,⟨name,hname,hident⟩,hmodules⟩
      · rintro ⟨t,ht,⟨name,hname,hident⟩,hmodules⟩
        exact ⟨name,hname,fileModule,hident,text,rfl,t,ht,clientModules,hmodules,rfl⟩

theorem okOr_raises {α : Type} {P : Failure → Prop} {e : Failure} (he : P e) (o : Option α) :
    Raises P (okOr e o) := by
  cases o with
  | none => exact raises_error he
  | some a => exact raises_ok P a

/-- Neither the names nor the contents are reported as a missing client. -/
theorem parse_raises_other (dir : OsStr) (d : Disk) (n : FileName) :
    Raises (· ≠ .error .grpcClientNotFound) (parseGrpcClientFile tc dir d n) := by
  rw [parseGrpcClientFile]
  split
  · rename_i contents _
    refine raises_bind (okOr_raises (by simp) _) (fun name => raises_bind (okOr_raises (by simp) _)
      (fun fileModule => raises_bind ?_ (fun raw => raises_bind (okOr_raises (by simp) _)
      (fun t => raises_bind ?_ (fun _ => raises_ok _ _)))))
    · cases contents with
      | error message => exact raises_error (by simp)
      | ok text => exact raises_ok _ text
    · cases hparse : parseClientModules t with
      | error e => exact raises_error (by simp [parse_raises t e hparse])
      | ok modules => exact raises_ok _ modules
  · exact raises_error (by simp)

theorem formatted_raises_other (f : GrpcClientFile) :
    Raises (· ≠ .error .grpcClientNotFound) (formatted tc f) :=
  raises_bind (okOr_raises (by simp) _) (fun _ => raises_bind (okOr_raises (by simp) _)
    (fun _ => raises_ok _ _))

theorem all_isEmpty_iff {t : File} {modules : List GrpcClientModule}
    (h : parseClientModules t = .ok modules) :
    modules.all (fun m => m.clients.isEmpty) = true ↔ ¬ HasClient t := by
  rw [hasClient_iff h]
  simp

theorem outputFile_withExtensionRs (n : FileName) : outputFile n.withExtensionRs = outputFile n := by
  simp only [outputFile,FileName.ending,FileName.fileStem_withExtensionRs]

theorem moduleOf_withExtensionRs (n : FileName) : moduleOf tc n.withExtensionRs = moduleOf tc n := by
  rw [moduleOf,moduleOf,FileName.fileStem_withExtensionRs]

theorem buildClient_ok_iff {dir : OsStr} {d d' : Disk} {n : FileName} :
    buildClient tc dir d n = .ok d' ↔ ∃ t text, tree tc d n.withExtensionRs = some t ∧
      HasClient t ∧ Generates tc n t text ∧ d.node (outputFile n) ≠ some .directory ∧
      d' = d.write (outputFile n) text := by
  simp only [buildClient,bind_ok_iff,outputFile_withExtensionRs]
  constructor
  · rintro ⟨f,hf,h⟩
    obtain ⟨t,ht,hmodule,hparse⟩ := parse_ok_iff.mp hf
    rw [moduleOf_withExtensionRs] at hmodule
    split at h
    · cases h
    · rename_i hall
      rw [all_isEmpty_iff hparse,not_not] at hall
      obtain ⟨text,htext,h⟩ := bind_ok_iff.mp h
      split at h
      · cases h
      · rename_i hdir
        cases h
        exact ⟨t,text,ht,hall,⟨_,_,hmodule,hparse,htext⟩,hdir,rfl⟩
  · rintro ⟨t,text,ht,hclient,⟨fileModule,modules,hmodule,hparse,htext⟩,hdir,rfl⟩
    rw [← moduleOf_withExtensionRs] at hmodule
    refine ⟨⟨fileModule,modules⟩,parse_ok_iff.mpr ⟨t,ht,hmodule,hparse⟩,?_⟩
    rw [if_neg (fun hall => (all_isEmpty_iff hparse).mp hall hclient),bind_ok_iff]
    refine ⟨text,htext,?_⟩
    split
    · rename_i hnode
      exact absurd hnode hdir
    · rfl

theorem buildClient_notFound_iff {dir : OsStr} {d : Disk} {n : FileName} :
    buildClient tc dir d n = .error (.error .grpcClientNotFound) ↔
      (moduleOf tc n).isSome ∧ ∃ t, tree tc d n.withExtensionRs = some t ∧ ¬ HasClient t := by
  simp only [buildClient]
  constructor
  · intro h
    cases hf : parseGrpcClientFile tc dir d n.withExtensionRs with
    | error e =>
      rw [hf] at h
      cases h
      exact absurd rfl (parse_raises_other dir d _ _ hf)
    | ok f =>
      obtain ⟨t,ht,hmodule,hparse⟩ := parse_ok_iff.mp hf
      rw [moduleOf_withExtensionRs] at hmodule
      rw [hf] at h
      refine ⟨Option.isSome_of_eq_some hmodule,t,ht,(all_isEmpty_iff hparse).mp ?_⟩
      by_contra hall
      change (if _ then _ else _) = _ at h
      rw [if_neg hall] at h
      refine raises_bind (formatted_raises_other f) (fun text => ?_) _ h rfl
      split
      · exact raises_error (by simp)
      · exact raises_ok _ _
  · rintro ⟨hmodule,t,ht,hno⟩
    obtain ⟨fileModule,hmodule⟩ := Option.isSome_iff_exists.mp hmodule
    rw [← moduleOf_withExtensionRs] at hmodule
    have hparse := parse_of_not_hasClient hno
    have hf : parseGrpcClientFile tc dir d n.withExtensionRs = .ok ⟨fileModule,_⟩ :=
      parse_ok_iff.mpr ⟨t,ht,hmodule,hparse⟩
    rw [hf]
    exact if_pos ((all_isEmpty_iff hparse).mpr hno)

theorem buildEntry_of_source {dir : OsStr} {d d' : Disk} {n : FileName} (h : Source d n) :
    (configure.setDir dir).buildEntry tc d n = .ok d' ↔ buildClient tc dir d n = .ok d' ∨
      buildClient tc dir d n = .error (.error .grpcClientNotFound) ∧ d' = d := by
  obtain ⟨hrs,contents,hnode⟩ := h
  simp only [SodaPoolBuilder.buildEntry,hnode,if_pos hrs,SodaPoolBuilder.buildClients,
    SodaPoolBuilder.setDir,tryForEach]
  cases buildClient tc dir d n with
  | ok t => simp
  | error e =>
    cases e with
    | panic => simp
    | error e => cases e <;> simp [eq_comm]

theorem buildEntry_of_not_source {dir : OsStr} {d : Disk} {n : FileName} (h : ¬ Source d n) :
    (configure.setDir dir).buildEntry tc d n = .ok d := by
  rw [SodaPoolBuilder.buildEntry]
  split
  · rename_i contents hnode
    exact if_neg (fun hrs => h ⟨hrs,contents,hnode⟩)
  · rfl

/-- The builder goes on from an entry exactly as `Turn` says. -/
theorem buildEntry_ok_iff {dir : OsStr} {d d' : Disk} {n : FileName} :
    (configure.setDir dir).buildEntry tc d n = .ok d' ↔ Turn tc d n d' := by
  by_cases hsource : Source d n
  · rw [buildEntry_of_source hsource,buildClient_ok_iff,buildClient_notFound_iff]
    constructor
    · rintro (⟨t,text,ht,hclient,htext,hdir,rfl⟩ | ⟨⟨hmodule,t,ht,hno⟩,rfl⟩)
      · exact Turn.generated hsource ht hclient htext hdir
      · exact Turn.clientless hsource hmodule ht hno
    · intro hturn
      cases hturn with
      | passed h => exact absurd hsource h
      | clientless _ hmodule ht hno => exact Or.inr ⟨⟨hmodule,_,ht,hno⟩,rfl⟩
      | generated _ ht hclient htext hdir => exact Or.inl ⟨_,_,ht,hclient,htext,hdir,rfl⟩
  · rw [buildEntry_of_not_source hsource]
    constructor
    · intro h
      cases h
      exact Turn.passed hsource
    · intro hturn
      cases hturn with
      | passed h => rfl
      | clientless h => exact absurd h hsource
      | generated h => exact absurd h hsource

theorem tryForEach_ok_iff {σ α : Type} {f : σ → α → Except Failure σ} {s u : σ} {as : List α} :
    tryForEach f s as = (u,.ok ()) ↔ run (fun t a => (f t a).toOption) s as = some u := by
  induction as generalizing s with
  | nil => simp [tryForEach]
  | cons a as ih =>
    rw [tryForEach,run_cons_eq_some]
    cases f s a with
    | error e => simp [Except.toOption]
    | ok t => simp [Except.toOption,ih]

end Entries

end Build
end SodaPool
