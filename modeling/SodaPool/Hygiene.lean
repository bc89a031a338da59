import Mathlib.Data.List.Nodup
import SodaPool.Recognition
import SodaPool.Scopes
import SodaPool.TonicFile

/-!
# What the names in a generated file mean

The generated file stands beside its client file. It has the types of the methods as they are
written there, and imports with stars what they need. What the generator declares itself is
all that can come between.
-/

namespace SodaPool
namespace Hygiene

open Syn Traversal Scopes

/-- How the compiler reads the items that nobody here looks into. -/
structure Reading where
  declares : String → Option (String × Decl)
  imports : String → Option (ℕ × List String)

namespace Reading

variable (r : Reading)

/-- What an item declares; the modules that the generator writes are public. -/
def declaration : Item → Option (String × Decl)
  | .mod m => some (m.ident.text,⟨true,true⟩)
  | .impl _ => none
  | .other tokens => r.declares tokens

def star : Item → Option (ℕ × List String)
  | .other tokens => r.imports tokens
  | _ => none

/-- What a module declares by a name. -/
def declared (items : List Item) (x : String) : Option Decl :=
  ((items.filterMap r.declaration).find? (fun e => e.1 = x)).map Prod.snd

def stars (items : List Item) : List (ℕ × List String) := items.filterMap r.star

end Reading

/-- The items of a module inside, found from the outside in. -/
def contents (items : List Item) : List String → Option (List Item)
  | [] => some items
  | x::xs => ((fileMods items).find? (fun m => m.ident.text = x)).bind (fun m =>
      contents (m.content.getD []) xs)

/-- The way from a module to one inside it, from the outside in. -/
def inside (outer m : List String) : Option (List String) :=
  if outer <:+ m then some (m.take (m.length-outer.length)).reverse else none

/-- A file becomes the module `name` of the module `parent`. -/
def addFile (c : Crate) (r : Reading) (parent : List String) (name : String) (file : File) :
    Crate where
  declared m x :=
    match inside (name::parent) m with
    | some way => (contents file.items way).bind (fun items => r.declared items x)
    | none => if m = parent ∧ x = name then some ⟨true,true⟩ else c.declared m x
  stars m :=
    match inside (name::parent) m with
    | some way => ((contents file.items way).map r.stars).getD []
    | none => c.stars m

/-- The name of the module that the generated file is. -/
def poolModule (f : GrpcClientFile) : String := f.fileModule.text ++ "_pool"

/-- The modules that the generated file declares. -/
def moduleNames (f : GrpcClientFile) : List String := f.clientModules.map (fun m => m.name.text)

/-- The structs that a generated module declares. -/
def structs (m : GrpcClientModule) : List String := m.clients.map (fun c => c.name.text ++ "Pool")

/-- The import at the top of the generated file. -/
def fileImport (f : GrpcClientFile) : String := "use super::" ++ f.fileModule.text ++ "::*;"

/-- The import at the top of a generated module. -/
def moduleImport (f : GrpcClientFile) (m : GrpcClientModule) : String :=
  "use super::super::" ++ f.fileModule.text ++ "::" ++ m.name.text ++ "::*;"

/-- The items of a generated file are read as what they stand for. -/
structure Reads (r : Reading) (f : GrpcClientFile) : Prop where
  file : r.declares (fileImport f) = none ∧
    r.imports (fileImport f) = some (1,[f.fileModule.text])
  module : ∀ m ∈ f.clientModules, r.declares (moduleImport f m) = none ∧
    r.imports (moduleImport f m) = some (2,[f.fileModule.text,m.name.text])
  struct : ∀ m ∈ f.clientModules, ∀ c ∈ m.clients, ∀ tokens,
    GrpcClientImpl.poolStruct ⟨c.name.text ++ "Pool"⟩ = .other tokens →
      r.declares tokens = some (c.name.text ++ "Pool",⟨true,false⟩) ∧ r.imports tokens = none

/-- A module all of whose declarations are of one kind. -/
theorem declared_of_map {r : Reading} {items : List Item} {names : List String} {e : Decl}
    (h : items.filterMap r.declaration = names.map (fun x => (x,e))) (x : String) :
    r.declared items x = if x ∈ names then some e else none := by
  rw [Reading.declared,h]
  clear h
  induction names with
  | nil => rfl
  | cons y names ih =>
    by_cases hy : y = x
    · subst hy
      simp
    · simpa [hy,Ne.symm hy] using ih

theorem inside_self (outer : List String) : inside outer outer = some [] := by
  simp [inside]

theorem inside_cons (x : String) (outer : List String) : inside outer (x::outer) = some [x] := by
  have hlength : (x::outer).length - outer.length = 1 := by simp
  rw [inside,if_pos (List.suffix_cons x outer),hlength]
  rfl

section Generated

variable {identNew : String → Option Ident} {r : Reading} {f : GrpcClientFile} {file : File}

theorem file_eq_some (h : f.generatePooledVersion identNew = some file) :
    ∃ mods, f.clientModules.mapM (fun m => m.generatePooledVersion identNew f.fileModule) =
      some mods ∧ file.items = .other (fileImport f)::mods := by
  obtain ⟨mods,hmods,h⟩ := Option.bind_eq_some_iff.mp h
  cases h
  exact ⟨mods,hmods,rfl⟩

theorem module_eq_some {m : GrpcClientModule} {item : Item}
    (h : m.generatePooledVersion identNew f.fileModule = some item) :
    ∃ clients, m.clients.mapM (GrpcClientImpl.generatePooledVersion identNew) = some clients ∧
      item = .mod ⟨m.name,some (.other (moduleImport f m)::clients.flatten)⟩ := by
  obtain ⟨clients,hclients,h⟩ := Option.bind_eq_some_iff.mp h
  cases h
  exact ⟨clients,hclients,rfl⟩

/-- At its top, the generated file declares the client modules and imports the client file. -/
theorem file_scope (hr : Reads r f) (h : f.generatePooledVersion identNew = some file) :
    file.items.filterMap r.declaration =
        (moduleNames f).map (fun x => (x,⟨true,true⟩)) ∧
      r.stars file.items = [(1,[f.fileModule.text])] := by
  obtain ⟨mods,hmods,hitems⟩ := file_eq_some h
  have hmod : mods.filterMap r.declaration =
        (moduleNames f).map (fun x => (x,⟨true,true⟩)) ∧ r.stars mods = [] := by
    rw [moduleNames]
    have hall := mapM_some_iff.mp hmods
    clear hmods hr hitems h
    generalize f.clientModules = ms at hall
    induction hall with
    | nil => exact ⟨rfl,rfl⟩
    | cons hm _ ih =>
      obtain ⟨clients,-,rfl⟩ := module_eq_some hm
      obtain ⟨hdeclared,hstars⟩ := ih
      exact ⟨by simp [Reading.declaration,hdeclared],by simpa [Reading.stars,Reading.star] using hstars⟩
  rw [hitems]
  constructor
  · simp [Reading.declaration,hr.file.1,hmod.1]
  · rw [Reading.stars,List.filterMap_cons]
    simp only [Reading.star,hr.file.2]
    exact congrArg _ hmod.2

/-- A generated module declares the structs and imports the client module. -/
theorem module_scope (hident : ∀ text ident, identNew text = some ident → ident.text = text)
    (hr : Reads r f) {m : GrpcClientModule} (hm : m ∈ f.clientModules)
    {clients : List (List Item)}
    (h : m.clients.mapM (GrpcClientImpl.generatePooledVersion identNew) = some clients) :
    (Item.other (moduleImport f m)::clients.flatten).filterMap r.declaration =
        (structs m).map (fun x => (x,⟨true,false⟩)) ∧
      r.stars (.other (moduleImport f m)::clients.flatten) =
        [(2,[f.fileModule.text,m.name.text])] := by
  have hclients : clients.flatten.filterMap r.declaration =
        (structs m).map (fun x => (x,⟨true,false⟩)) ∧ r.stars clients.flatten = [] := by
    have hstruct := hr.struct m hm
    rw [structs]
    have hall := mapM_some_iff.mp h
    clear h
    generalize m.clients = cs at hall hstruct
    induction hall with
    | nil => exact ⟨rfl,rfl⟩
    | @cons c items cs clients hc _ ih =>
      obtain ⟨methods,-,rfl⟩ := impl_eq_some hident hc
      obtain ⟨hdeclared,hstars⟩ := ih (fun c' hc' => hstruct c' (List.mem_cons_of_mem c hc'))
      obtain ⟨hdeclares,himports⟩ := hstruct c List.mem_cons_self _ rfl
      have hd : r.declaration (GrpcClientImpl.poolStruct ⟨c.name.text ++ "Pool"⟩) =
          some (c.name.text ++ "Pool",⟨true,false⟩) := hdeclares
      have hi : r.star (GrpcClientImpl.poolStruct ⟨c.name.text ++ "Pool"⟩) = none := himports
      simp only [List.flatten_cons,List.cons_append,List.nil_append,List.map_cons]
      constructor
      · rw [List.filterMap_cons_some hd,List.filterMap_cons_none rfl,List.filterMap_cons_none rfl,
          hdeclared]
      · rw [Reading.stars,List.filterMap_cons_none hi,List.filterMap_cons_none rfl,
          List.filterMap_cons_none rfl]
        exact hstars
  obtain ⟨hdeclares,himports⟩ := hr.module m hm
  constructor
  · simp [Reading.declaration,hdeclares,hclients.1]
  · rw [Reading.stars,List.filterMap_cons]
    simp only [Reading.star,himports]
    exact congrArg _ hclients.2

/-- The contents of a generated module. -/
theorem contents_module (h : f.generatePooledVersion identNew = some file)
    (hnodup : (moduleNames f).Nodup) {m : GrpcClientModule}
    (hm : m ∈ f.clientModules) :
    ∃ clients, m.clients.mapM (GrpcClientImpl.generatePooledVersion identNew) = some clients ∧
      contents file.items [m.name.text] =
        some (.other (moduleImport f m)::clients.flatten) := by
  obtain ⟨mods,hmods,hitems⟩ := file_eq_some h
  obtain ⟨item,hitem,hgenerated⟩ := mem_of_mapM_some hmods hm
  obtain ⟨clients,hclients,rfl⟩ := module_eq_some hgenerated
  refine ⟨clients,hclients,?_⟩
  have hfind : (fileMods file.items).find? (fun n => n.ident.text = m.name.text) =
      some ⟨m.name,some (.other (moduleImport f m)::clients.flatten)⟩ := by
    have hmem : ⟨m.name,some (.other (moduleImport f m)::clients.flatten)⟩ ∈ fileMods file.items := by
      rw [mem_fileMods,hitems]
      exact List.mem_cons_of_mem _ hitem
    cases hn : (fileMods file.items).find? (fun n => n.ident.text = m.name.text) with
    | none => simpa using List.find?_eq_none.mp hn _ hmem
    | some n =>
      have hname : n.ident.text = m.name.text := by simpa using List.find?_some hn
      have hin := (mem_fileMods file.items n).mp (List.mem_of_find?_eq_some hn)
      rw [hitems] at hin
      obtain ⟨m',hm',hgenerated'⟩ := exists_of_mapM_some hmods _ (List.mem_of_ne_of_mem (by simp) hin)
      obtain ⟨clients',-,heq⟩ := module_eq_some hgenerated'
      obtain rfl := Item.mod.inj heq
      obtain rfl := List.inj_on_of_nodup_map hnodup hm' hm hname
      rw [hgenerated] at hgenerated'
      exact congrArg some (Item.mod.inj (Option.some.inj hgenerated')).symm
  rw [contents,hfind]
  rfl

end Generated

section Crate

variable {identNew : String → Option Ident} {r : Reading} {f : GrpcClientFile} {file : File}
  {c : Crate} {parent : List String}

/-- The crate with the generated file in it. -/
abbrev pooled (c : Crate) (r : Reading) (parent : List String) (f : GrpcClientFile) (file : File) :
    Crate := addFile c r parent (poolModule f) file

/-- The module of the client file. -/
abbrev original (f : GrpcClientFile) (parent : List String) : List String :=
  f.fileModule.text::parent

/-- A client module, and the generated module of that name. -/
abbrev clientModule (f : GrpcClientFile) (parent : List String) (m : GrpcClientModule) :
    List String := m.name.text::original f parent

abbrev generatedModule (f : GrpcClientFile) (parent : List String) (m : GrpcClientModule) :
    List String := m.name.text::poolModule f::parent

/-- Outside the generated file, the crate is as it was. -/
theorem pooled_outside {m : List String} (hm : ¬ poolModule f::parent <:+ m) (x : String) :
    (pooled c r parent f file).declared m x =
        (if m = parent ∧ x = poolModule f then some ⟨true,true⟩ else c.declared m x) ∧
      (pooled c r parent f file).stars m = c.stars m := by
  have hinside : inside (poolModule f::parent) m = none := if_neg hm
  simp [addFile,hinside]

theorem pooled_file (hr : Reads r f) (h : f.generatePooledVersion identNew = some file) (x : String) :
    (pooled c r parent f file).declared (poolModule f::parent) x =
        (if x ∈ moduleNames f then some ⟨true,true⟩ else none) ∧
      (pooled c r parent f file).stars (poolModule f::parent) = [(1,[f.fileModule.text])] := by
  obtain ⟨hdeclared,hstars⟩ := file_scope hr h
  rw [← declared_of_map hdeclared x,← hstars]
  simp [addFile,inside_self,contents]

theorem pooled_module (hident : ∀ text ident, identNew text = some ident → ident.text = text)
    (hr : Reads r f) (h : f.generatePooledVersion identNew = some file)
    (hnodup : (moduleNames f).Nodup) {m : GrpcClientModule} (hm : m ∈ f.clientModules) (x : String) :
    (pooled c r parent f file).declared (m.name.text::poolModule f::parent) x =
        (if x ∈ structs m then some ⟨true,false⟩ else none) ∧
      (pooled c r parent f file).stars (m.name.text::poolModule f::parent) =
        [(2,[f.fileModule.text,m.name.text])] := by
  obtain ⟨clients,hclients,hcontents⟩ := contents_module h hnodup hm
  obtain ⟨hdeclared,hstars⟩ := module_scope hident hr hm hclients
  rw [← declared_of_map hdeclared x,← hstars]
  simp [addFile,inside_cons,hcontents]

/-- A way that leads around the generated file leads the same way with the file in place. -/
theorem walks_pooled {site m xs : List String} (hfresh : c.declared parent (poolModule f) = none)
    (hm : ¬ poolModule f::parent <:+ m) (h : c.Walks site m xs) :
    (pooled c r parent f file).Walks site m xs := by
  induction xs generalizing m with
  | nil => trivial
  | cons x xs ih =>
    obtain ⟨⟨e,he,hvisible⟩,hwalks⟩ := h
    have hne : ¬ (m = parent ∧ x = poolModule f) := by
      rintro ⟨rfl,rfl⟩
      rw [hfresh] at he
      cases he
    have hnext : ¬ poolModule f::parent <:+ x::m := by
      rw [List.suffix_cons_iff]
      rintro (heq | hsuffix)
      · cases heq
        exact hne ⟨rfl,rfl⟩
      · exact hm hsuffix
    refine ⟨⟨e,?_,hvisible⟩,ih hnext hwalks⟩
    rw [(pooled_outside hm x).1,if_neg hne,he]

theorem poolModule_ne (f : GrpcClientFile) : poolModule f ≠ f.fileModule.text := by
  intro h
  have hlength := congrArg String.length h
  simp [poolModule] at hlength

theorem outside_drop (n : ℕ) : ¬ poolModule f::parent <:+ parent.drop n := by
  intro h
  have hlength := h.length_le
  simp only [List.length_cons,List.length_drop] at hlength
  omega

theorem outside_original : ¬ poolModule f::parent <:+ original f parent := by
  rw [List.suffix_cons_iff]
  rintro (heq | h)
  · exact poolModule_ne f (List.cons.inj heq).1
  · exact outside_drop 0 h

theorem outside_cons {m : List String} (hm : original f parent <:+ m)
    (h : ¬ poolModule f::parent <:+ m) (x : String) : ¬ poolModule f::parent <:+ x::m := by
  rw [List.suffix_cons_iff]
  rintro (heq | hsuffix)
  · have hlength := hm.length_le
    rw [← (List.cons.inj heq).2,List.length_cons] at hlength
    exact Nat.not_succ_le_self _ hlength
  · exact h hsuffix

theorem outside_module (x : String) : ¬ poolModule f::parent <:+ x::original f parent :=
  outside_cons List.suffix_rfl outside_original x

/-- The client file is beside the generated one, not around it. -/
theorem not_around_file {m : List String} (hm : original f parent <:+ m) :
    ¬ m <:+ poolModule f::parent := by
  intro h
  exact poolModule_ne f (List.cons.inj ((hm.trans h).eq_of_length rfl)).1.symm

theorem not_around_module {m : List String} (hm : original f parent <:+ m) (x : String) :
    ¬ m <:+ x::poolModule f::parent := by
  intro h
  rcases List.suffix_cons_iff.mp (hm.trans h) with heq | htail
  · have hlength := congrArg List.length heq
    simp at hlength
  · exact not_around_file List.suffix_rfl htail

/-- From the generated file, the client file shows what it shows from around the two. -/
theorem shows_pooled {site m : List String} {x : String} (hm : original f parent <:+ m)
    (hsite : ¬ m <:+ site) (houtside : ¬ poolModule f::parent <:+ m) :
    (pooled c r parent f file).Shows site m x ↔ c.Shows parent m x := by
  have hparent : ¬ m <:+ parent :=
    fun h => not_around_file hm (h.trans (List.suffix_cons _ parent))
  have hne : ¬ (m = parent ∧ x = poolModule f) := fun h => hparent (h.1 ▸ List.suffix_rfl)
  have hdeclared : (pooled c r parent f file).declared m x = c.declared m x :=
    (pooled_outside houtside x).1.trans (if_neg hne)
  simp only [Crate.Shows,hdeclared,hsite,hparent]

/-- What a generated module finds at the top of its file. -/
theorem sees_file (hr : Reads r f) (h : f.generatePooledVersion identNew = some file)
    (hfresh : c.declared parent (poolModule f) = none)
    (hfile : c.Shows parent parent f.fileModule.text) {x : String} (hx : x ∉ moduleNames f)
    {site d : List String} (hsite : poolModule f::parent <:+ site) :
    (pooled c r parent f file).Sees site (poolModule f::parent) x d ↔
      c.Shows parent (original f parent) x ∧ d = x::original f parent := by
  have hstars : (pooled c r parent f file).stars (poolModule f::parent) = _ := (pooled_file hr h x).2
  have hdeclared : (pooled c r parent f file).declared (poolModule f::parent) x = none :=
    (pooled_file hr h x).1.trans (if_neg hx)
  have hwalks : (pooled c r parent f file).Walks (poolModule f::parent) parent [f.fileModule.text] :=
    walks_pooled hfresh (outside_drop 0) ⟨hfile.mono (List.suffix_cons _ parent),trivial⟩
  rw [Crate.sees_of_star hdeclared hsite hstars (by simp) hwalks]
  exact and_congr_left'
    (shows_pooled List.suffix_rfl (not_around_file List.suffix_rfl) outside_original)

/-- The names that a generated module finds: its own structs, and all that is public in the
client module, but for what is called like one of the structs. All other names are left to
the crates around. -/
theorem scope_iff (hident : ∀ text ident, identNew text = some ident → ident.text = text)
    (hr : Reads r f) (h : f.generatePooledVersion identNew = some file)
    (hnodup : (moduleNames f).Nodup) (hfresh : c.declared parent (poolModule f) = none)
    {m : GrpcClientModule} (hm : m ∈ f.clientModules)
    (hmodule : c.Walks parent parent [f.fileModule.text,m.name.text]) {x : String} {d : List String} :
    (pooled c r parent f file).Sees (generatedModule f parent m) (generatedModule f parent m) x d ↔
      (x ∈ structs m ∧ d = x::generatedModule f parent m) ∨
        x ∉ structs m ∧ c.Shows parent (clientModule f parent m) x ∧
          d = x::clientModule f parent m := by
  have hscope : (pooled c r parent f file).declared (generatedModule f parent m) x = _ ∧
      (pooled c r parent f file).stars (generatedModule f parent m) = _ :=
    pooled_module hident hr h hnodup hm x
  obtain ⟨hdeclared,hstars⟩ := hscope
  by_cases hx : x ∈ structs m
  · rw [if_pos hx] at hdeclared
    rw [Crate.sees_of_shows ⟨_,hdeclared,.inl rfl⟩]
    simp [hx]
  · rw [if_neg hx] at hdeclared
    have hwalks : (pooled c r parent f file).Walks (generatedModule f parent m) parent
        [f.fileModule.text,m.name.text] := walks_pooled hfresh (outside_drop 0)
      (hmodule.mono ((List.suffix_cons _ parent).trans (List.suffix_cons _ _)))
    rw [Crate.sees_of_star hdeclared List.suffix_rfl hstars (by simp) hwalks]
    have hshows : (pooled c r parent f file).Shows (generatedModule f parent m)
        (clientModule f parent m) x ↔ c.Shows parent (clientModule f parent m) x :=
      shows_pooled (List.suffix_cons _ _) (not_around_module (List.suffix_cons _ _) _)
        (outside_module _)
    simp only [hx,false_and,not_false_eq_true,true_and,false_or]
    exact and_congr_left' hshows

/-- Once the first name has led to the client file, the rest of a path leads on as before. -/
theorem leads_on {site base e xs d : List String} {x : String}
    (hfresh : c.declared parent (poolModule f) = none) (hsite : parent <:+ site)
    (he : original f parent <:+ e) (houtside : ¬ poolModule f::parent <:+ e)
    (hsees : ∀ e', (pooled c r parent f file).Sees site base x e' ↔ e' = x::e)
    (hwalks : c.Walks parent (x::e) xs) :
    (pooled c r parent f file).Leads site base (x::xs) d ↔ d = (x::xs).reverse ++ e := by
  have hrest : (pooled c r parent f file).Walks site (x::e) xs :=
    walks_pooled hfresh (outside_cons he houtside x) (hwalks.mono hsite)
  simp only [Crate.Leads,hsees,exists_eq_left,Crate.leads_of_walks hrest,List.reverse_cons,
    List.append_assoc,List.singleton_append]

/-- No declaration of the generator is in the way of the path. -/
def Clear (f : GrpcClientFile) (m : GrpcClientModule) : ℕ → List String → Prop
  | 0,x::_ => x ∉ structs m
  | 1,x::_ => x ∉ moduleNames f
  | 0,[] | 1,[] => False
  | _+2,_ => True

/-- A path that can be walked from around the two files, as the types of a client's methods
can, means in the generated module what it means in the client module, unless it begins with a
name that the generator has declared. -/
theorem means_iff (hident : ∀ text ident, identNew text = some ident → ident.text = text)
    (hr : Reads r f) (h : f.generatePooledVersion identNew = some file)
    (hnodup : (moduleNames f).Nodup) (hfresh : c.declared parent (poolModule f) = none)
    {m : GrpcClientModule} (hm : m ∈ f.clientModules)
    (hmodule : c.Walks parent parent [f.fileModule.text,m.name.text]) {supers : ℕ}
    {segments d : List String} (hclear : Clear f m supers segments)
    (hwalks : c.Walks parent ((clientModule f parent m).drop supers) segments) :
    (pooled c r parent f file).Means (generatedModule f parent m) supers segments d ↔
      c.Means (clientModule f parent m) supers segments d := by
  have hclient : parent <:+ clientModule f parent m :=
    (List.suffix_cons _ parent).trans (List.suffix_cons _ _)
  have hgenerated : parent <:+ generatedModule f parent m :=
    (List.suffix_cons _ parent).trans (List.suffix_cons _ _)
  rw [Crate.Means,Crate.Means,Crate.leads_of_walks (hwalks.mono hclient)]
  apply and_congr (by simp)
  match supers,segments,hclear,hwalks with
  | 0,x::xs,hx,⟨hshows,hrest⟩ =>
    have hsees (e : List String) : (pooled c r parent f file).Sees (generatedModule f parent m)
        (generatedModule f parent m) x e ↔ e = x::clientModule f parent m := by
      rw [scope_iff hident hr h hnodup hfresh hm hmodule,or_iff_right (fun hs => hx hs.1)]
      exact ⟨fun hs => hs.2.2,fun he => ⟨hx,hshows,he⟩⟩
    exact leads_on hfresh hgenerated (List.suffix_cons _ _) (outside_module _) hsees hrest
  | 1,x::xs,hx,⟨hshows,hrest⟩ =>
    have hsees (e : List String) : (pooled c r parent f file).Sees (generatedModule f parent m)
        (poolModule f::parent) x e ↔ e = x::original f parent := by
      rw [sees_file hr h hfresh hmodule.1 hx (List.suffix_cons _ _)]
      exact and_iff_right hshows
    exact leads_on hfresh hgenerated List.suffix_rfl outside_original hsees hrest
  | n+2,segments,_,hwalks =>
    exact Crate.leads_of_walks (walks_pooled hfresh (outside_drop n) (hwalks.mono hgenerated))

/-- The description of a service with one method. -/
def healthParts : List TonicFile.Part :=
  [.client ⟨"Health","health",[⟨⟨"is_alive"⟩,[],false,.path (.plain ["super","IsAliveRequest"]),
    .path (.plain ["super","IsAliveResponse"]),false,false⟩]⟩]

/-- The client module of its file. -/
abbrev healthClient : GrpcClientModule :=
  ⟨⟨"health_client"⟩,[⟨⟨"HealthClient"⟩,[⟨⟨"is_alive"⟩,false,
    .path (.plain ["super","IsAliveRequest"]),.path (.plain ["super","IsAliveResponse"])⟩]⟩]⟩

/-- The file, and the crate around it. -/
def health : GrpcClientFile := ⟨⟨"health"⟩,[healthClient]⟩

def crate : Crate where
  declared
    | [],"health" => some ⟨false,true⟩
    | ["health"],"health_client" => some ⟨true,true⟩
    | ["health"],"IsAliveRequest" | ["health"],"IsAliveResponse" => some ⟨true,false⟩
    | ["health_client","health"],"HealthClient" => some ⟨true,false⟩
    | _,_ => none
  stars _ := []

def reading : Reading where
  declares tokens :=
    if tokens = "use super::health::*;" ∨ tokens = "use super::super::health::health_client::*;" then
      none
    else some ("HealthClientPool",⟨true,false⟩)
  imports tokens :=
    if tokens = "use super::health::*;" then some (1,["health"])
    else if tokens = "use super::super::health::health_client::*;" then
      some (2,["health","health_client"])
    else none

theorem reads_health : Reads reading health where
  file := by decide
  module m hm := by
    obtain rfl := List.mem_singleton.mp hm
    decide
  struct m hm client hclient tokens h := by
    obtain rfl := List.mem_singleton.mp hm
    obtain rfl := List.mem_singleton.mp hclient
    obtain rfl := Item.other.inj h
    decide +kernel

theorem walks_health (x : String) (hx : x = "health_client" ∨ x = "IsAliveResponse") :
    crate.Walks [] [] ["health",x] := by
  rcases hx with rfl | rfl <;>
    exact ⟨⟨_,rfl,.inr List.suffix_rfl⟩,⟨_,rfl,.inl rfl⟩,trivial⟩

/-- The answer of a method, by its path in the client module. -/
theorem means_health : ∃ file, health.generatePooledVersion (fun text => some ⟨text⟩) = some file ∧
    (pooled crate reading [] health file).Means (generatedModule health [] healthClient) 1
      ["IsAliveResponse"] ["IsAliveResponse","health"] := by
  obtain ⟨file,hfile⟩ : ∃ file,
      health.generatePooledVersion (fun text => some ⟨text⟩) = some file := ⟨_,rfl⟩
  have hwalks := (walks_health _ (.inr rfl)).2
  have hsame : (pooled crate reading [] health file).Means (generatedModule health [] healthClient) 1
      ["IsAliveResponse"] ["IsAliveResponse","health"] ↔ crate.Means
        (clientModule health [] healthClient) 1 ["IsAliveResponse"] ["IsAliveResponse","health"] :=
    means_iff (fun text ident h => by cases h; rfl) reads_health hfile (by decide) rfl
      (List.mem_singleton.mpr rfl) (walks_health _ (.inl rfl)) (by simp [Clear,moduleNames,health])
      hwalks
  refine ⟨file,hfile,hsame.mpr ⟨by decide,?_⟩⟩
  exact (Crate.leads_of_walks (hwalks.mono List.nil_suffix)).mpr rfl

/-- The parser takes for clients what is called so. -/
theorem endsWith_of_parse {t : File} {modules : List GrpcClientModule}
    (h : parseClientModules t = .ok modules) :
    ∀ m ∈ modules, ∀ client ∈ m.clients, client.name.EndsWith "Client" := by
  intro m hm client hclient
  obtain ⟨found,-,hfound⟩ := exists_of_mapM_ok h m hm
  obtain ⟨clients,hclients,hm'⟩ := bind_ok_iff.mp hfound
  cases hm'
  obtain ⟨block,hblock,hparse⟩ := exists_of_mapM_ok hclients client hclient
  have hnames : NamesClient block.selfTy := by
    simpa using (List.mem_filter.mp (List.mem_filter.mp hblock).1).2
  rw [parseGrpcClientImplementation] at hparse
  split at hparse
  case h_1 p hp =>
    rw [hp] at hnames
    obtain ⟨segment,hsegment,hends⟩ := hnames
    rw [hsegment] at hparse
    obtain ⟨methods,-,heq⟩ := bind_ok_iff.mp hparse
    cases heq
    exact hends
  case h_2 => cases hparse

theorem endsWith_of_struct {m : GrpcClientModule} {x : String} (h : x ∈ structs m) :
    "Pool".toList <:+ x.toList := by
  obtain ⟨client,-,rfl⟩ := List.mem_map.mp h
  simp

/-- The names that the generated functions use of the modules around them: the client is the one
of the client module, and `std`, `tonic` and `soda_pool` are left to the crates, unless the
client module makes them public. -/
theorem uses_of_generated (hident : ∀ text ident, identNew text = some ident → ident.text = text)
    (hr : Reads r f) (h : f.generatePooledVersion identNew = some file)
    (hnodup : (moduleNames f).Nodup) (hfresh : c.declared parent (poolModule f) = none)
    {t : File} (hparse : parseClientModules t = .ok f.clientModules)
    {m : GrpcClientModule} (hm : m ∈ f.clientModules)
    (hmodule : c.Walks parent parent [f.fileModule.text,m.name.text]) :
    (∀ client ∈ m.clients, c.Shows parent (clientModule f parent m) client.name.text → ∀ d,
        (pooled c r parent f file).Sees (generatedModule f parent m) (generatedModule f parent m)
          client.name.text d ↔ d = client.name.text::clientModule f parent m) ∧
      ∀ x ∈ ["std","tonic","soda_pool"], ¬ c.Shows parent (clientModule f parent m) x → ∀ d,
        ¬ (pooled c r parent f file).Sees (generatedModule f parent m)
          (generatedModule f parent m) x d := by
  constructor
  · intro client hclient hshows d
    have hnot : client.name.text ∉ structs m := by
      intro hstruct
      obtain ⟨other,-,hother⟩ := List.mem_map.mp hstruct
      have hends := endsWith_of_parse hparse m hm client hclient
      rw [Ident.EndsWith,← hother] at hends
      exact not_endsWith_pool _ hends
    rw [scope_iff hident hr h hnodup hfresh hm hmodule,or_iff_right (fun hs => hnot hs.1)]
    exact ⟨fun hs => hs.2.2,fun hd => ⟨hnot,hshows,hd⟩⟩
  · intro x hx hhidden d hsees
    rcases (scope_iff hident hr h hnodup hfresh hm hmodule).mp hsees with ⟨hstruct,-⟩ | ⟨-,hshows,-⟩
    · have hends := endsWith_of_struct hstruct
      simp only [List.mem_cons,List.not_mem_nil,or_false] at hx
      rcases hx with rfl | rfl | rfl <;> revert hends <;> decide
    · exact hhidden hshows

theorem uses_health : ∃ file, health.generatePooledVersion (fun text => some ⟨text⟩) = some file ∧
    (pooled crate reading [] health file).Sees (generatedModule health [] healthClient)
        (generatedModule health [] healthClient) "HealthClient"
        ("HealthClient"::clientModule health [] healthClient) ∧
      ∀ d, ¬ (pooled crate reading [] health file).Sees (generatedModule health [] healthClient)
        (generatedModule health [] healthClient) "tonic" d := by
  obtain ⟨file,hfile⟩ : ∃ file,
      health.generatePooledVersion (fun text => some ⟨text⟩) = some file := ⟨_,rfl⟩
  have hparse : parseClientModules (TonicFile.encode (fun _ => "") healthParts) =
      .ok health.clientModules := (TonicFile.parse_encode _ healthParts).1
  obtain ⟨hclient,hcrates⟩ := uses_of_generated (c := crate) (fun text ident h => by cases h; rfl)
    reads_health hfile (by decide) rfl hparse (List.mem_singleton.mpr rfl)
    (walks_health _ (.inl rfl))
  refine ⟨file,hfile,?_,?_⟩
  · exact (hclient _ (List.mem_singleton.mpr rfl) ⟨_,rfl,.inl rfl⟩ _).mpr rfl
  · refine hcrates "tonic" (by decide) ?_
    rintro ⟨e,he,-⟩
    cases he

end Crate

end Hygiene
end SodaPool
