import SodaPool.Generation

/-!
# A pass over the directory

What is written comes from the clients that were found, and has none itself. So whatever
order the entries have, and whichever of the new ones are among them, a file has been
written at most one text.
-/

namespace SodaPool
namespace Build

open Syn OsPath Traversal Transition SodaPoolBuilder

theorem fileStem_of_outputFile {n k : FileName} (h : outputFile n = outputFile k) :
    n.fileStem = k.fileStem := by
  have hunits := congrArg FileName.units h
  exact List.append_cancel_right hunits

theorem split_outputFile (n : FileName) : OsStr.rsplitFileAtDot (outputFile n).units =
    (n.fileStem ++ OsStr.ofString "_pool",some (OsStr.ofString "rs")) :=
  FileName.split_ending rfl (by decide)

theorem isRs_outputFile (n : FileName) : (outputFile n).IsRs := by
  refine ⟨OsStr.ofString "rs",?_,by decide⟩
  rw [FileName.extension,split_outputFile]

theorem fileStem_outputFile (n : FileName) :
    (outputFile n).fileStem = n.fileStem ++ OsStr.ofString "_pool" := by
  rw [FileName.fileStem,split_outputFile]

theorem withExtensionRs_outputFile (n : FileName) :
    (outputFile n).withExtensionRs = outputFile n := by
  apply FileName.ext
  change (outputFile n).fileStem ++ OsStr.ofString ".rs" = n.fileStem ++ OsStr.ofString "_pool.rs"
  rw [fileStem_outputFile,List.append_assoc]
  rfl

section Runs

variable (tc : Toolchain) (dir : OsStr)

/-- The loop over the entries, as long as nothing fails. -/
def entryStep (d : Disk) (n : FileName) : Option Disk :=
  ((configure.setDir dir).buildEntry tc d n).toOption

/-- The directory as it was found. -/
def Disk.start (found : FileName → Option Node) : Disk := ⟨found,[]⟩

/-- The entries that `read_dir` may list: all that are there from the start, and of those
that are written in the meantime any. -/
def Lists (d : Disk) (entries : List FileName) : Prop :=
  (∀ n, d.node n ≠ none → n ∈ entries) ∧
    Along (entryStep tc dir) (fun d' n => d'.node n ≠ none) d entries

/-- What has been written so far, compared with what was found. -/
structure Grown (found : FileName → Option Node) (d : Disk) : Prop where
  found_eq : d.found = found
  origin : ∀ n text, (n,text) ∈ d.written → ∃ k t, treeOf tc (found k.withExtensionRs) = some t ∧
    HasClient t ∧ n = outputFile k ∧ Generates tc k t text

variable {tc} {dir}

theorem entryStep_eq_some {d d' : Disk} {n : FileName} :
    entryStep tc dir d n = some d' ↔ Turn tc d n d' := by
  have hentry : (configure.setDir dir).buildEntry tc d n = .ok d' ↔ Turn tc d n d' :=
    buildEntry_ok_iff
  rw [← hentry,entryStep]
  cases (configure.setDir dir).buildEntry tc d n <;> simp [Except.toOption]

theorem buildAllClients_ok_iff {d u : Disk} {entries : List FileName} :
    (configure.setDir dir).buildAllClients tc d entries = (u,.ok ()) ↔
      run (entryStep tc dir) d entries = some u := tryForEach_ok_iff

/-- A generated file is read back, and no client is found in it. -/
theorem not_hasClient_of_formatted (hf : tc.Faithful) {f : GrpcClientFile} {text : String}
    (h : formatted tc f = .ok text) : ∃ t, tc.parseFile text = some t ∧ ¬ HasClient t := by
  obtain ⟨tokens,htokens,h⟩ := bind_ok_iff.mp h
  obtain ⟨file,hfile,htext⟩ := bind_ok_iff.mp h
  cases htext
  rw [okOr_ok_iff] at htokens hfile
  refine ⟨file,hf.roundTrip tokens file hfile,?_⟩
  rw [hf.rereads tokens file hfile]
  exact not_hasClient_generated hf.identText htokens

theorem generates_unique {n k : FileName} {t : File} {text text' : String}
    (hstem : n.fileStem = k.fileStem) (h : Generates tc n t text) (h' : Generates tc k t text') :
    text = text' := by
  obtain ⟨fileModule,clientModules,hmodule,hparse,hformatted⟩ := h
  obtain ⟨fileModule',clientModules',hmodule',hparse',hformatted'⟩ := h'
  rw [moduleOf,hstem,← moduleOf,hmodule'] at hmodule
  cases hmodule
  rw [hparse'] at hparse
  cases hparse
  rw [hformatted'] at hformatted
  cases hformatted
  rfl

section Grown

variable {found : FileName → Option Node} {d d' u : Disk} {n : FileName}

theorem grown_start (found : FileName → Option Node) : Grown tc found (Disk.start found) :=
  ⟨rfl,fun n text h => by cases h⟩

theorem Grown.tree_of_wrote (hf : tc.Faithful) (hg : Grown tc found d) (h : d.Wrote n) :
    ∃ t, tree tc d n = some t ∧ ¬ HasClient t := by
  obtain ⟨text,htext,hnode⟩ := Disk.node_of_wrote h
  obtain ⟨k,t,-,-,-,fileModule,clientModules,-,-,hformatted⟩ := hg.origin n text htext
  obtain ⟨t',ht',hno⟩ := not_hasClient_of_formatted hf hformatted
  refine ⟨t',?_,hno⟩
  rw [tree,hnode]
  exact ht'

theorem Grown.tree_of_not_wrote (hg : Grown tc found d) (h : ¬ d.Wrote n) :
    tree tc d n = treeOf tc (found n) := by
  rw [tree,Disk.node_of_not_wrote h,hg.found_eq]

/-- A file with a client was found as it is. -/
theorem Grown.not_wrote_of_hasClient (hf : tc.Faithful) (hg : Grown tc found d) {t : File}
    (ht : tree tc d n = some t) (hclient : HasClient t) : ¬ d.Wrote n := by
  intro hwrote
  obtain ⟨t',ht',hno⟩ := hg.tree_of_wrote hf hwrote
  rw [ht] at ht'
  cases ht'
  exact hno hclient

/-- The text of a written file is determined by what was found. -/
theorem Grown.text_unique (hg : Grown tc found d) {text text' : String} {k : FileName} {t : File}
    (h : (outputFile k,text) ∈ d.written) (ht : treeOf tc (found k.withExtensionRs) = some t)
    (htext : Generates tc k t text') : text = text' := by
  obtain ⟨k',t',ht',-,houtput,hgenerates⟩ := hg.origin _ _ h
  have hstem := fileStem_of_outputFile houtput
  rw [FileName.withExtensionRs_congr hstem,ht'] at ht
  cases ht
  exact generates_unique hstem.symm hgenerates htext

theorem Grown.turn (hf : tc.Faithful) (hg : Grown tc found d) (h : Turn tc d n d') :
    Grown tc found d' := by
  cases h with
  | passed => exact hg
  | clientless => exact hg
  | @generated t text _ ht hclient htext _ =>
    refine ⟨hg.found_eq,?_⟩
    intro m text' hmem
    rcases List.mem_cons.mp hmem with heq | hmem
    · cases heq
      have hnot := hg.not_wrote_of_hasClient hf ht hclient
      rw [hg.tree_of_not_wrote hnot] at ht
      exact ⟨n,t,ht,hclient,rfl,htext⟩
    · exact hg.origin m text' hmem

theorem grown_of_run (hf : tc.Faithful) {entries : List FileName} (hg : Grown tc found d)
    (hr : run (entryStep tc dir) d entries = some u) : Grown tc found u :=
  run_invariant (P := fun _ _ => True) (fun _ _ _ hI _ ht => hI.turn hf (entryStep_eq_some.mp ht))
    hg (along_of_forall (fun _ _ _ => trivial) d) hr

end Grown

theorem written_of_turn {d d' : Disk} {n : FileName} (h : Turn tc d n d') :
    d.written ⊆ d'.written := by
  cases h with
  | passed => exact List.Subset.refl _
  | clientless => exact List.Subset.refl _
  | generated => exact List.subset_cons_self _ _

theorem exists_of_turn {d d' : Disk} {n m : FileName} (h : Turn tc d n d')
    (hm : d.node m ≠ none) : d'.node m ≠ none := by
  cases h with
  | passed => exact hm
  | clientless => exact hm
  | @generated t text =>
    by_cases heq : m = outputFile n
    · rw [heq,Disk.node_write_self]
      simp
    · rwa [d.node_write_of_ne text heq]

/-- To list what is there from the start is always possible. -/
theorem lists_of_exists {d : Disk} {entries : List FileName}
    (h : ∀ n, d.node n ≠ none ↔ n ∈ entries) : Lists tc dir d entries := by
  refine ⟨fun n hn => (h n).mp hn,?_⟩
  have hall : ∀ n ∈ entries, d.node n ≠ none := fun n hn => (h n).mpr hn
  clear h
  induction entries generalizing d with
  | nil => trivial
  | cons n entries ih =>
    refine ⟨hall n List.mem_cons_self,fun t ht => ih (fun m hm => ?_)⟩
    exact exists_of_turn (entryStep_eq_some.mp ht) (hall m (List.mem_cons_of_mem n hm))

theorem written_of_run {d u : Disk} {entries : List FileName}
    (hr : run (entryStep tc dir) d entries = some u) : d.written ⊆ u.written :=
  run_invariant (I := fun d' => d.written ⊆ d'.written) (P := fun _ _ => True)
    (fun _ _ _ hI _ ht => List.Subset.trans hI (written_of_turn (entryStep_eq_some.mp ht)))
    (List.Subset.refl _) (along_of_forall (fun _ _ _ => trivial) d) hr

theorem wrote_of_run {d u : Disk} {entries : List FileName} {m : FileName}
    (hr : run (entryStep tc dir) d entries = some u) (h : d.Wrote m) : u.Wrote m := by
  obtain ⟨text,hmem⟩ := h
  exact ⟨text,written_of_run hr hmem⟩

theorem Turn.moduleOf_isSome {d d' : Disk} {n : FileName} (h : Turn tc d n d') (hs : Source d n) :
    (moduleOf tc n).isSome := by
  cases h with
  | passed hnot => exact absurd hs hnot
  | clientless _ hmodule => exact hmodule
  | generated _ _ _ htext =>
    obtain ⟨fileModule,_,hmodule,-⟩ := htext
    exact Option.isSome_of_eq_some hmodule

theorem Turn.tree_eq_some {d d' : Disk} {n : FileName} (h : Turn tc d n d') (hs : Source d n) :
    ∃ t, tree tc d n.withExtensionRs = some t := by
  cases h with
  | passed hnot => exact absurd hs hnot
  | clientless _ _ ht => exact ⟨_,ht⟩
  | generated _ ht => exact ⟨_,ht⟩

/-- From a client that is found, a text is generated and written. -/
theorem Turn.written {d d' : Disk} {n : FileName} {t : File} (h : Turn tc d n d')
    (hs : Source d n) (ht : tree tc d n.withExtensionRs = some t) (hclient : HasClient t) :
    ∃ text, Generates tc n t text ∧ (outputFile n,text) ∈ d'.written := by
  cases h with
  | passed hnot => exact absurd hs hnot
  | clientless _ _ ht' hno =>
    rw [ht] at ht'
    cases ht'
    exact absurd hclient hno
  | @generated t' text _ ht' _ htext =>
    rw [ht] at ht'
    cases ht'
    exact ⟨text,htext,List.mem_cons_self⟩

/-- Every entry of a pass that succeeded had its turn. -/
theorem turn_of_mem {d u : Disk} {entries : List FileName} {n : FileName}
    (hr : run (entryStep tc dir) d entries = some u) (hn : n ∈ entries) :
    ∃ pre post s t, entries = pre ++ n::post ∧ run (entryStep tc dir) d pre = some s ∧
      Turn tc s n t ∧ run (entryStep tc dir) t post = some u := by
  obtain ⟨pre,post,rfl⟩ := List.append_of_mem hn
  obtain ⟨s,hpre,hr⟩ := run_append.mp hr
  obtain ⟨t,ht,hpost⟩ := run_cons_eq_some.mp hr
  exact ⟨pre,post,s,t,rfl,hpre,entryStep_eq_some.mp ht,hpost⟩

end Runs

/-! For one file and what is generated from it, the tools can be written down. -/

section Sample

/-- Words that are no identifiers. -/
def reserved : List String := ["mod","self","super","crate","type","use","fn","impl"]

/-- An identifier may have blanks around it. -/
def parseWord (name : String) : Option Ident :=
  let word := ((name.toList.dropWhile (· = ' ')).reverse.dropWhile (· = ' ')).reverse
  if word ≠ [] ∧ word.all (fun c => c.isAlphanum || c = '_') ∧ String.ofList word ∉ reserved then
    some ⟨String.ofList word⟩
  else none

def tools (source : String) (t : File) (pooledText : String) (pooled : File) : Toolchain where
  parseIdent := parseWord
  parseFile text :=
    if text = header ++ pooledText then some pooled else if text = source then some t else none
  identNew text := some ⟨text⟩
  parse2 tokens := if tokens = pooled then some tokens else none
  unparse _ := pooledText

theorem tools_faithful (source : String) (t : File) (pooledText : String) (pooled : File) :
    (tools source t pooledText pooled).Faithful where
  roundTrip tokens file h := by
    obtain ⟨hpooled,hfile⟩ := Option.ite_none_right_eq_some.mp h
    rw [← Option.some.inj hfile,hpooled]
    exact if_pos rfl
  rereads tokens file h := by
    obtain ⟨-,hfile⟩ := Option.ite_none_right_eq_some.mp h
    exact (Option.some.inj hfile).symm
  identText text ident h := by
    cases h
    rfl

/-- A directory with one file in it. -/
def alone (name : FileName) (text : String) : FileName → Option Node :=
  fun n => if n = name then some (.file (.ok text)) else none

theorem node_alone (name : FileName) (text : String) :
    (Disk.start (alone name text)).node name = some (.file (.ok text)) := if_pos rfl

theorem lists_alone (tc : Toolchain) (dir : OsStr) (name : FileName) (text : String) :
    Lists tc dir (Disk.start (alone name text)) [name] := by
  apply lists_of_exists
  intro n
  have hnode : (Disk.start (alone name text)).node n = alone name text n := rfl
  rw [hnode,alone,List.mem_singleton]
  by_cases hn : n = name <;> simp [hn]

theorem parseFile_source {source pooledText : String} (t pooled : File)
    (h : source ≠ header ++ pooledText) :
    (tools source t pooledText pooled).parseFile source = some t :=
  (if_neg h).trans (if_pos rfl)

theorem treeOf_alone {source pooledText : String} {t t' pooled : File} {name n : FileName}
    (h : source ≠ header ++ pooledText)
    (ht : treeOf (tools source t pooledText pooled) (alone name source n) = some t') :
    n = name ∧ t' = t := by
  by_cases hn : n = name
  · rw [alone,if_pos hn,treeOf,parseFile_source t pooled h] at ht
    exact ⟨hn,(Option.some.inj ht).symm⟩
  · rw [alone,if_neg hn] at ht
    cases ht

theorem readable_alone {source pooledText : String} (t pooled : File) {name n : FileName}
    (h : source ≠ header ++ pooledText) (hn : alone name source n ≠ none) :
    ∃ t', treeOf (tools source t pooledText pooled) (alone name source n) = some t' := by
  have hname : n = name := by
    by_contra hne
    exact hn (if_neg hne)
  rw [alone,if_pos hname]
  exact ⟨t,parseFile_source t pooled h⟩

theorem formatted_sample (source pooledText : String) (t : File) {pooled : File}
    {file : GrpcClientFile}
    (h : file.generatePooledVersion (fun text => some ⟨text⟩) = some pooled) :
    formatted (tools source t pooledText pooled) file = .ok (header ++ pooledText) := by
  refine bind_ok_iff.mpr ⟨pooled,okOr_ok_iff.mpr h,?_⟩
  exact bind_ok_iff.mpr ⟨pooled,okOr_ok_iff.mpr (if_pos rfl),rfl⟩

/-- A client as small as it can be. -/
def fooText : String := "mod foo_client \x7b impl FooClient \x7b fn new() \x7b\x7d \x7d \x7d"

def fooTree : File :=
  ⟨"",[.mod ⟨⟨"foo_client"⟩,some [.impl ⟨"",.path (.plain ["FooClient"]),
    [.fn ⟨[],"",⟨"new"⟩,"",[],.default,"\x7b\x7d"⟩]⟩]⟩]⟩

def fooFile : GrpcClientFile := ⟨⟨"foo"⟩,[⟨⟨"foo_client"⟩,[⟨⟨"FooClient"⟩,[]⟩]⟩]⟩

def fooPooled : File := (fooFile.generatePooledVersion (fun text => some ⟨text⟩)).getD ⟨"",[]⟩

def fooPooledText : String := "#![allow(clippy::unit_arg, clippy::clone_on_copy)]
use super::foo::*;
pub mod foo_client \x7b
    use super::super::foo::foo_client::*;
    #[derive(Clone)]
    pub struct FooClientPool \x7b
        pool: std::sync::Arc<dyn soda_pool::ChannelPool + Send + Sync>,
    \x7d
    impl FooClientPool \x7b
        pub fn new(pool: impl soda_pool::ChannelPool + Send + Sync + 'static) -> Self \x7b
            Self \x7b
                pool: std::sync::Arc::new(pool),
            \x7d
        \x7d
        pub fn new_from_endpoint(endpoint: soda_pool::EndpointTemplate) -> Self \x7b
            Self \x7b
                pool: std::sync::Arc::new(
                    soda_pool::ManagedChannelPoolBuilder::new(endpoint).build(),
                ),
            \x7d
        \x7d
    \x7d
    impl FooClientPool \x7b\x7d
\x7d
"

/-- The name of its file. -/
def fooRs : FileName := ⟨OsStr.ofString "foo.rs",by decide,by decide,by decide⟩

def fooTools : Toolchain := tools fooText fooTree fooPooledText fooPooled

theorem fooFile_generates :
    fooFile.generatePooledVersion (fun text => some ⟨text⟩) = some fooPooled := rfl

theorem fooTree_parses : parseClientModules fooTree = .ok fooFile.clientModules := rfl

end Sample

end Build
end SodaPool
