import Mathlib.Data.List.Induction
import SodaPool.Directory

/-!
# Files without clients

They are only skipped after the builder has made a module of their name and has opened the
file with their stem. When a pass comes to every client as it was found, and no other file
stops it, is decided by the names, the clients and the order of the entries.
-/

namespace SodaPool
namespace Build

open Syn OsPath Traversal Transition SodaPoolBuilder

section Clientless

variable (tc : Toolchain) (dir : OsStr) (found : FileName → Option Node)

/-- The entry was found with these clients. -/
def Holds (n : FileName) (modules : List GrpcClientModule) : Prop :=
  ∃ t, treeOf tc (found n) = some t ∧ HasClient t ∧ parseClientModules t = .ok modules

/-- One of the entries makes the file: there are clients under its stem. -/
def Made (entries : List FileName) (m : FileName) : Prop :=
  ∃ k ∈ entries, k.IsRs ∧ outputFile k = m ∧ ∃ modules, Holds tc found k.withExtensionRs modules

/-- An entry that can be handled after the others. -/
structure Orderly (before : List FileName) (n : FileName) : Prop where
  named : (moduleOf tc n).isSome
  present : found n.withExtensionRs ≠ none ∨ Made tc found before n.withExtensionRs
  same : ∀ modules, Holds tc found n modules → Holds tc found n.withExtensionRs modules
  first : ∀ modules, Holds tc found n.withExtensionRs modules →
    Made tc found before n.withExtensionRs → ∃ k ∈ before, k.IsRs ∧ outputFile k = outputFile n

/-- The pass succeeds, and what it writes is what comes from the clients that were found. -/
def Insensitive (entries : List FileName) : Prop :=
  ∃ u, (configure.setDir dir).buildAllClients tc (Disk.start found) entries = (u,.ok ()) ∧
    ∀ m text, (m,text) ∈ u.written ↔ ∃ n t, n.IsRs ∧ treeOf tc (found n) = some t ∧ HasClient t ∧
      Generates tc n t text ∧ m = outputFile n

variable {tc} {dir} {found}

theorem generates_congr {n k : FileName} {t : File} {text : String}
    (h : n.fileStem = k.fileStem) : Generates tc n t text ↔ Generates tc k t text := by
  rw [Generates,Generates,moduleOf,moduleOf,h]

theorem Generates.holds {n : FileName} {t : File} {text : String} (h : Generates tc n t text)
    {m : FileName} (ht : treeOf tc (found m) = some t) (hclient : HasClient t) :
    ∃ modules, Holds tc found m modules := by
  obtain ⟨-,modules,-,hparse,-⟩ := h
  exact ⟨modules,t,ht,hclient,hparse⟩

/-- Which clients a text was generated from can be read off it. -/
theorem formatted_injective (hf : tc.Faithful) {fileModule : Ident}
    {modules modules' : List GrpcClientModule} {text : String}
    (h : formatted tc ⟨fileModule,modules⟩ = .ok text)
    (h' : formatted tc ⟨fileModule,modules'⟩ = .ok text) : modules = modules' := by
  obtain ⟨tokens,htokens,h⟩ := bind_ok_iff.mp h
  obtain ⟨file,hfile,htext⟩ := bind_ok_iff.mp h
  obtain ⟨tokens',htokens',h'⟩ := bind_ok_iff.mp h'
  obtain ⟨file',hfile',htext'⟩ := bind_ok_iff.mp h'
  rw [okOr_ok_iff] at htokens hfile htokens' hfile'
  cases htext
  have hsame : file' = file := by
    have hread := hf.roundTrip tokens' file' hfile'
    rw [Except.ok.inj htext',hf.roundTrip tokens file hfile] at hread
    exact (Option.some.inj hread).symm
  rw [hsame] at hfile'
  rw [← hf.rereads tokens file hfile] at htokens
  rw [← hf.rereads tokens' file hfile'] at htokens'
  have hmodules : (GrpcClientFile.mk fileModule modules).clientModules =
      (GrpcClientFile.mk fileModule modules').clientModules :=
    generated_injective hf.identText rfl htokens htokens'
  exact hmodules

/-- A file that is written in a run is written from a client. -/
theorem change_of_wrote {d u : Disk} {entries : List FileName} {m : FileName}
    (hr : run (entryStep tc dir) d entries = some u) (hnot : ¬ d.Wrote m) (hu : u.Wrote m) :
    ∃ pre k post s t text, entries = pre ++ k::post ∧ run (entryStep tc dir) d pre = some s ∧
      k.IsRs ∧ tree tc s k.withExtensionRs = some t ∧ HasClient t ∧ Generates tc k t text ∧
      outputFile k = m := by
  obtain ⟨pre,k,post,s,s',hsplit,hpre,hstep,hbefore,hafter⟩ :=
    exists_change (Q := fun d' => d'.Wrote m) hnot hr hu
  cases entryStep_eq_some.mp hstep with
  | passed => exact absurd hafter hbefore
  | clientless => exact absurd hafter hbefore
  | @generated t text hs ht hclient htext =>
    have hm : m = outputFile k :=
      ((Disk.wrote_write _ _ _ _).mp hafter).resolve_right hbefore
    exact ⟨pre,k,post,s,t,text,hsplit,hpre,hs.1,ht,hclient,htext,hm.symm⟩

/-- Once a file is replaced by an output, nothing comes from its clients any more. -/
theorem lost_of_wrote (hf : tc.Faithful) {d u : Disk} {entries : List FileName} {n : FileName}
    (hg : Grown tc found d) (hr : run (entryStep tc dir) d entries = some u)
    (hwrote : d.Wrote n.withExtensionRs) (hnot : ¬ d.Wrote (outputFile n)) :
    ¬ u.Wrote (outputFile n) := by
  intro hu
  obtain ⟨pre,k,post,s,t,text,-,hpre,-,ht,hclient,-,hout⟩ := change_of_wrote hr hnot hu
  have hgs : Grown tc found s := grown_of_run hf hg hpre
  rw [FileName.withExtensionRs_congr (fileStem_of_outputFile hout)] at ht
  exact hgs.not_wrote_of_hasClient hf ht hclient (wrote_of_run hpre hwrote)

theorem made_of_wrote (hf : tc.Faithful) {d : Disk} {entries : List FileName} {m : FileName}
    (hr : run (entryStep tc dir) (Disk.start found) entries = some d) (h : d.Wrote m) :
    Made tc found entries m := by
  have hnot : ¬ (Disk.start found).Wrote m := fun ⟨_,hmem⟩ => by cases hmem
  obtain ⟨pre,k,post,s,t,text,rfl,hpre,hrs,ht,hclient,htext,hout⟩ := change_of_wrote hr hnot h
  have hgs : Grown tc found s := grown_of_run hf (grown_start found) hpre
  rw [hgs.tree_of_not_wrote (hgs.not_wrote_of_hasClient hf ht hclient)] at ht
  exact ⟨k,by simp,hrs,hout,htext.holds ht hclient⟩

/-- What is expected to come from a file under its own name is from it. -/
theorem same_of_written (hf : tc.Faithful) {u : Disk} (hg : Grown tc found u) {n : FileName}
    {t : File} {text : String} {modules : List GrpcClientModule}
    (hparse : parseClientModules t = .ok modules) (htext : Generates tc n t text)
    (hmem : (outputFile n,text) ∈ u.written) : Holds tc found n.withExtensionRs modules := by
  obtain ⟨k,t',ht',hclient',hout,fileModule',modules',hmodule',hparse',hformatted'⟩ :=
    hg.origin _ _ hmem
  obtain ⟨fileModule,modules₁,hmodule,hparse₁,hformatted⟩ := htext
  have hstem := fileStem_of_outputFile hout
  rw [hparse] at hparse₁
  cases hparse₁
  rw [moduleOf,← hstem,← moduleOf,hmodule] at hmodule'
  cases hmodule'
  have hmodules := formatted_injective hf hformatted hformatted'
  rw [hmodules]
  rw [← FileName.withExtensionRs_congr hstem] at ht'
  exact ⟨t',ht',hclient',hparse'⟩

section Readable

variable (hreadable : ∀ n, n.IsRs → found n ≠ none → ∃ t, treeOf tc (found n) = some t)

include hreadable

/-- Every entry with the extension is a file. -/
theorem source_of_node {d : Disk} {n : FileName} (hg : Grown tc found d) (hrs : n.IsRs)
    (hn : d.node n ≠ none) : Source d n := by
  refine ⟨hrs,?_⟩
  by_cases hwrote : d.Wrote n
  · obtain ⟨text,-,hnode⟩ := Disk.node_of_wrote hwrote
    exact ⟨_,hnode⟩
  · rw [Disk.node_of_not_wrote hwrote,hg.found_eq] at hn ⊢
    obtain ⟨t,ht⟩ := hreadable n hrs hn
    rcases hnode : found n with _ | _ | contents
    · exact absurd hnode hn
    · rw [hnode] at ht
      cases ht
    · exact ⟨contents,rfl⟩

theorem node_ne_directory {d : Disk} {n : FileName} (hg : Grown tc found d) (hrs : n.IsRs) :
    d.node n ≠ some .directory := by
  intro hnode
  obtain ⟨-,contents,hfile⟩ := source_of_node hreadable hg hrs (by simp [hnode])
  rw [hnode] at hfile
  cases hfile

/-- One more entry, as it should be. -/
theorem wrote_iff_made_step (hf : tc.Faithful)
    (hgenerates : ∀ n t, n.IsRs → treeOf tc (found n) = some t → HasClient t →
      ∃ text, Generates tc n t text)
    {before : List FileName} {d : Disk} {n : FileName} (hg : Grown tc found d)
    (hwrote : ∀ m, d.Wrote m ↔ Made tc found before m) (hn : d.node n ≠ none)
    (ho : n.IsRs → Orderly tc found before n) :
    ∃ d', Turn tc d n d' ∧ ∀ m, d'.Wrote m ↔ Made tc found (before ++ [n]) m := by
  have hmade (m : FileName) : Made tc found (before ++ [n]) m ↔ Made tc found before m ∨
      n.IsRs ∧ outputFile n = m ∧ ∃ modules, Holds tc found n.withExtensionRs modules := by
    simp [Made,or_and_right,exists_or]
  by_cases hrs : n.IsRs
  · have hs : Source d n := source_of_node hreadable hg hrs hn
    have ho := ho hrs
    by_cases hservice : d.Wrote n.withExtensionRs
    · obtain ⟨t,ht,hno⟩ := hg.tree_of_wrote hf hservice
      refine ⟨d,Turn.clientless hs ho.named ht hno,fun m => ?_⟩
      rw [hwrote,hmade,iff_self_or]
      rintro ⟨-,rfl,modules,hholds⟩
      obtain ⟨k,hk,hkrs,hout⟩ := ho.first modules hholds ((hwrote _).mp hservice)
      rw [← FileName.withExtensionRs_congr (fileStem_of_outputFile hout)] at hholds
      exact ⟨k,hk,hkrs,hout,modules,hholds⟩
    · have hfound : found n.withExtensionRs ≠ none :=
        ho.present.resolve_right (fun h => hservice ((hwrote _).mpr h))
      obtain ⟨t,ht⟩ := hreadable _ n.isRs_withExtensionRs hfound
      have htree : tree tc d n.withExtensionRs = some t := by rw [hg.tree_of_not_wrote hservice,ht]
      by_cases hclient : HasClient t
      · obtain ⟨text,htext⟩ := hgenerates _ t n.isRs_withExtensionRs ht hclient
        rw [generates_congr n.fileStem_withExtensionRs] at htext
        have hdir := node_ne_directory hreadable hg (isRs_outputFile n)
        refine ⟨_,Turn.generated hs htree hclient htext hdir,fun m => ?_⟩
        rw [Disk.wrote_write,hwrote,hmade,or_comm,eq_comm]
        simp [hrs,htext.holds ht hclient]
      · refine ⟨d,Turn.clientless hs ho.named htree hclient,fun m => ?_⟩
        rw [hwrote,hmade,iff_self_or]
        rintro ⟨-,-,modules,t',ht',hclient',-⟩
        rw [ht] at ht'
        cases ht'
        exact absurd hclient' hclient
  · refine ⟨d,Turn.passed (fun h => hrs h.1),fun m => ?_⟩
    rw [hwrote,hmade,iff_self_or]
    exact fun h => absurd h.1 hrs

/-- As long as the entries are orderly, the pass goes on, and what has been written is what
the entries so far make. -/
theorem wrote_iff_made (hf : tc.Faithful)
    (hgenerates : ∀ n t, n.IsRs → treeOf tc (found n) = some t → HasClient t →
      ∃ text, Generates tc n t text)
    {entries : List FileName}
    (hl : Along (entryStep tc dir) (fun d n => d.node n ≠ none) (Disk.start found) entries)
    (ho : ∀ pre n post, entries = pre ++ n::post → n.IsRs → Orderly tc found pre n) :
    ∃ u, run (entryStep tc dir) (Disk.start found) entries = some u ∧
      ∀ m, u.Wrote m ↔ Made tc found entries m := by
  induction entries using List.reverseRecOn with
  | nil =>
    refine ⟨Disk.start found,rfl,fun m => ?_⟩
    simp [Disk.Wrote,Disk.start,Made]
  | append_singleton before n ih =>
    rw [along_append] at hl
    have hbefore : ∀ pre k post, before = pre ++ k::post → k.IsRs → Orderly tc found pre k :=
      fun pre k post hsplit => ho pre k (post ++ [n]) (by rw [hsplit]; simp)
    obtain ⟨d,hd,hwrote⟩ := ih hl.1 hbefore
    have hg : Grown tc found d := grown_of_run hf (grown_start found) hd
    obtain ⟨d',hturn,hwrote'⟩ := wrote_iff_made_step hreadable hf hgenerates hg hwrote
      (hl.2 d hd).1 (ho before n [] rfl)
    refine ⟨d',run_append.mpr ⟨d,hd,?_⟩,hwrote'⟩
    exact run_cons_eq_some.mpr ⟨d',entryStep_eq_some.mpr hturn,rfl⟩

theorem insensitive_of_orderly (hf : tc.Faithful)
    (hgenerates : ∀ n t, n.IsRs → treeOf tc (found n) = some t → HasClient t →
      ∃ text, Generates tc n t text)
    {entries : List FileName} (hl : Lists tc dir (Disk.start found) entries)
    (ho : ∀ pre n post, entries = pre ++ n::post → n.IsRs → Orderly tc found pre n) :
    Insensitive tc dir found entries := by
  obtain ⟨u,hu,hwrote⟩ := wrote_iff_made hreadable hf hgenerates hl.2 ho
  have hg : Grown tc found u := grown_of_run hf (grown_start found) hu
  refine ⟨u,buildAllClients_ok_iff.mpr hu,fun m text => ?_⟩
  constructor
  · intro hmem
    obtain ⟨k,t,ht,hclient,hm,htext⟩ := hg.origin m text hmem
    rw [← generates_congr k.fileStem_withExtensionRs] at htext
    rw [← outputFile_withExtensionRs] at hm
    exact ⟨_,t,k.isRs_withExtensionRs,ht,hclient,htext,hm⟩
  · rintro ⟨n,t,hrs,ht,hclient,⟨fileModule,modules,hmodule,hparse,hformatted⟩,rfl⟩
    have hstart : (Disk.start found).node n ≠ none := ne_none_of_treeOf ht
    obtain ⟨pre,post,hsplit⟩ := List.append_of_mem (hl.1 n hstart)
    have hholds : Holds tc found n.withExtensionRs modules :=
      (ho pre n post hsplit hrs).same modules ⟨t,ht,hclient,hparse⟩
    obtain ⟨text',hmem⟩ := (hwrote (outputFile n)).mpr
      ⟨n,hl.1 n hstart,hrs,rfl,modules,hholds⟩
    obtain ⟨t',ht',-,hparse'⟩ := hholds
    have htext : Generates tc n t' text := ⟨fileModule,modules,hmodule,hparse',hformatted⟩
    rwa [← hg.text_unique hmem ht' htext]

/-- What an entry makes, it has written, if it is ever written. -/
theorem wrote_of_made (hf : tc.Faithful) {d u : Disk} {entries rest : List FileName} {m : FileName}
    (hl : Along (entryStep tc dir) (fun d n => d.node n ≠ none) (Disk.start found) entries)
    (hd : run (entryStep tc dir) (Disk.start found) entries = some d)
    (hu : run (entryStep tc dir) d rest = some u) (hmade : Made tc found entries m)
    (hwrote : u.Wrote m) : d.Wrote m := by
  obtain ⟨k,hk,hrs,rfl,modules,t,ht,hclient,-⟩ := hmade
  obtain ⟨pre,post,s,s',rfl,hs,hturn,hpost⟩ := turn_of_mem hd hk
  have hg : Grown tc found s := grown_of_run hf (grown_start found) hs
  have hsource : Source s k :=
    source_of_node hreadable hg hrs ((along_append.mp hl).2 s hs).1
  have hrun : run (entryStep tc dir) s (k::post) = some d :=
    run_cons_eq_some.mpr ⟨s',entryStep_eq_some.mpr hturn,hpost⟩
  by_contra hnot
  have hnots : ¬ s.Wrote (outputFile k) := fun h => hnot (wrote_of_run hrun h)
  by_cases hservice : s.Wrote k.withExtensionRs
  · have hall : run (entryStep tc dir) s ((k::post) ++ rest) = some u :=
      run_append.mpr ⟨d,hrun,hu⟩
    exact lost_of_wrote hf hg hall hservice hnots hwrote
  · have htree : tree tc s k.withExtensionRs = some t := by rw [hg.tree_of_not_wrote hservice,ht]
    obtain ⟨text,-,hmem⟩ := hturn.written hsource htree hclient
    exact hnot (wrote_of_run hpost ⟨text,hmem⟩)

theorem orderly_of_insensitive (hf : tc.Faithful)
    (hgenerates : ∀ n t, n.IsRs → treeOf tc (found n) = some t → HasClient t →
      ∃ text, Generates tc n t text)
    {entries : List FileName} (hl : Lists tc dir (Disk.start found) entries)
    (h : Insensitive tc dir found entries) {pre post : List FileName} {n : FileName}
    (hsplit : entries = pre ++ n::post) (hrs : n.IsRs) : Orderly tc found pre n := by
  obtain ⟨u,hu,hwritten⟩ := h
  rw [buildAllClients_ok_iff,hsplit] at hu
  have hgu : Grown tc found u := grown_of_run hf (grown_start found) hu
  obtain ⟨d,hpre,hu⟩ := run_append.mp hu
  have hg : Grown tc found d := grown_of_run hf (grown_start found) hpre
  obtain ⟨d',hd',hpost⟩ := run_cons_eq_some.mp hu
  have hturn := entryStep_eq_some.mp hd'
  have hlisted := hl.2
  rw [hsplit,along_append] at hlisted
  have hs : Source d n := source_of_node hreadable hg hrs (hlisted.2 d hpre).1
  have hexpected (m : FileName) (modules : List GrpcClientModule) (hm : m.IsRs)
      (hholds : Holds tc found m modules) : ∃ t text, parseClientModules t = .ok modules ∧
        Generates tc m t text ∧ (outputFile m,text) ∈ u.written := by
    obtain ⟨t,ht,hclient,hparse⟩ := hholds
    obtain ⟨text,htext⟩ := hgenerates m t hm ht hclient
    exact ⟨t,text,hparse,htext,(hwritten _ _).mpr ⟨m,t,hm,ht,hclient,htext,rfl⟩⟩
  refine ⟨hturn.moduleOf_isSome hs,?_,?_,?_⟩
  · obtain ⟨t,ht⟩ := hturn.tree_eq_some hs
    by_cases hwrote : d.Wrote n.withExtensionRs
    · exact Or.inr (made_of_wrote hf hpre hwrote)
    · rw [hg.tree_of_not_wrote hwrote] at ht
      exact Or.inl (ne_none_of_treeOf ht)
  · intro modules hholds
    obtain ⟨t,text,hparse,htext,hmem⟩ := hexpected n modules hrs hholds
    exact same_of_written hf hgu hparse htext hmem
  · intro modules hholds hmade
    have hwrote : d.Wrote n.withExtensionRs := by
      obtain ⟨k,-,-,hout,modules',hholds'⟩ := id hmade
      obtain ⟨t,text,-,-,hmem⟩ := hexpected _ modules' k.isRs_withExtensionRs hholds'
      rw [outputFile_withExtensionRs,hout] at hmem
      exact wrote_of_made hreadable hf hlisted.1 hpre hu hmade ⟨text,hmem⟩
    obtain ⟨t,text,-,-,hmem⟩ := hexpected _ modules n.isRs_withExtensionRs hholds
    rw [outputFile_withExtensionRs] at hmem
    have hout : d.Wrote (outputFile n) := by
      by_contra hnot
      exact lost_of_wrote hf hg hu hwrote hnot ⟨text,hmem⟩
    obtain ⟨k,hk,hkrs,hsame,-⟩ := made_of_wrote hf hpre hout
    exact ⟨k,hk,hkrs,hsame⟩

end Readable

/-- If every file can be read and every client can be generated from, the files without
clients make no difference exactly if every entry comes up orderly: its stem is an
identifier, the file with the stem and the extension `rs` is there and has the clients that
the entry has, and that file is not the output of an earlier client, unless its own clients
have come up before. -/
theorem insensitive_iff (hf : tc.Faithful)
    (hreadable : ∀ n, n.IsRs → found n ≠ none → ∃ t, treeOf tc (found n) = some t)
    (hgenerates : ∀ n t, n.IsRs → treeOf tc (found n) = some t → HasClient t →
      ∃ text, Generates tc n t text)
    {entries : List FileName} (hl : Lists tc dir (Disk.start found) entries) :
    Insensitive tc dir found entries ↔
      ∀ pre n post, entries = pre ++ n::post → n.IsRs → Orderly tc found pre n :=
  ⟨fun h _ _ _ hsplit hrs => orderly_of_insensitive hreadable hf hgenerates hl h hsplit hrs,
    insensitive_of_orderly hreadable hf hgenerates hl⟩

/-- A module file, in which no client is. -/
def modRs : FileName := ⟨OsStr.ofString "mod.rs",by decide,by decide,by decide⟩

def modText : String := "pub mod health;"

def modTree : File := ⟨"",[.mod ⟨⟨"health"⟩,none⟩]⟩

/-- The same contents under a name that is an identifier. -/
def utilRs : FileName := ⟨OsStr.ofString "util.rs",by decide,by decide,by decide⟩

def mixedTools : Toolchain :=
  { fooTools with
    parseFile := fun text => if text = modText then some modTree else fooTools.parseFile text }

/-- A client beside a file without one. -/
def mixed : FileName → Option Node :=
  fun n => if n = utilRs then some (.file (.ok modText)) else alone fooRs fooText n

theorem parseFile_mixed {text : String} (h : text ≠ modText) :
    mixedTools.parseFile text = fooTools.parseFile text := if_neg h

theorem mixedTools_faithful : mixedTools.Faithful where
  roundTrip tokens file h := by
    have hne : header ++ mixedTools.unparse file ≠ modText := by
      change header ++ fooPooledText ≠ modText
      decide
    rw [parseFile_mixed hne]
    exact (tools_faithful fooText fooTree fooPooledText fooPooled).roundTrip _ _ h
  rereads := (tools_faithful fooText fooTree fooPooledText fooPooled).rereads
  identText := (tools_faithful fooText fooTree fooPooledText fooPooled).identText

theorem mixed_ne_none {n : FileName} (hn : mixed n ≠ none) : n = utilRs ∨ n = fooRs := by
  by_contra hnot
  push Not at hnot
  exact hn ((if_neg hnot.1).trans (if_neg hnot.2))

theorem treeOf_util : treeOf mixedTools (mixed utilRs) = some modTree := rfl

theorem treeOf_foo : treeOf mixedTools (mixed fooRs) = some fooTree := by
  have hnot : fooRs ≠ utilRs := by decide
  have hfound : mixed fooRs = some (.file (.ok fooText)) := (if_neg hnot).trans (if_pos rfl)
  have hparse : fooTools.parseFile fooText = some fooTree :=
    parseFile_source fooTree fooPooled (by decide)
  rw [hfound,treeOf,parseFile_mixed (by decide),hparse]

/-- The file without a client is opened first, and makes no difference. -/
theorem insensitive_mixed : Insensitive mixedTools [] mixed [utilRs,fooRs] := by
  have hreadable (n : FileName) (_ : n.IsRs) (hn : mixed n ≠ none) :
      ∃ t, treeOf mixedTools (mixed n) = some t := by
    rcases mixed_ne_none hn with rfl | rfl
    · exact ⟨_,treeOf_util⟩
    · exact ⟨_,treeOf_foo⟩
  have hgenerates (n : FileName) (t : File) (_ : n.IsRs) (ht : treeOf mixedTools (mixed n) = some t)
      (hclient : HasClient t) : ∃ text, Generates mixedTools n t text := by
    rcases mixed_ne_none (ne_none_of_treeOf ht) with rfl | rfl
    · rw [treeOf_util,Option.some.injEq] at ht
      subst ht
      exact absurd hclient (by decide)
    · rw [treeOf_foo,Option.some.injEq] at ht
      subst ht
      have hformatted := formatted_sample fooText fooPooledText fooTree fooFile_generates
      exact ⟨_,_,_,by decide,fooTree_parses,hformatted⟩
  have hlists : Lists mixedTools [] (Disk.start mixed) [utilRs,fooRs] := by
    apply lists_of_exists
    intro n
    refine ⟨fun hn => by simpa using mixed_ne_none hn,fun hn => ?_⟩
    rcases List.mem_pair.mp hn with rfl | rfl
    · exact ne_none_of_treeOf treeOf_util
    · exact ne_none_of_treeOf treeOf_foo
  have hutil : utilRs.withExtensionRs = utilRs := by decide
  have hfoo : fooRs.withExtensionRs = fooRs := by decide
  refine (insensitive_iff mixedTools_faithful hreadable hgenerates hlists).mpr ?_
  intro pre n post hsplit _
  obtain ⟨rfl,rfl⟩ | ⟨rfl,rfl⟩ : pre = [] ∧ n = utilRs ∨ pre = [utilRs] ∧ n = fooRs := by
    match pre,hsplit with
    | [],hsplit => exact .inl ⟨rfl,(List.cons.inj hsplit).1.symm⟩
    | [k],hsplit =>
      obtain ⟨hk,hrest⟩ := List.cons.inj hsplit
      exact .inr ⟨by rw [hk],(List.cons.inj hrest).1.symm⟩
    | k::k'::pre,hsplit => simp at hsplit
  · refine ⟨by decide,.inl ?_,fun modules => ?_,fun modules _ ⟨k,hk,_⟩ => by cases hk⟩
    · rw [hutil]
      exact ne_none_of_treeOf treeOf_util
    · rw [hutil]
      exact id
  · refine ⟨by decide,.inl ?_,fun modules => ?_,fun modules _ ⟨k,hk,_,hout,_⟩ => ?_⟩
    · rw [hfoo]
      exact ne_none_of_treeOf treeOf_foo
    · rw [hfoo]
      exact id
    · cases List.mem_singleton.mp hk
      exact absurd hout (by decide)

/-- The builder fails on a directory because its only file is called `mod.rs`. -/
theorem insensitive_mod : ¬ ∀ (tc : Toolchain) (dir : OsStr) (found : FileName → Option Node)
    (entries : List FileName), tc.Faithful →
    (∀ n, n.IsRs → found n ≠ none → ∃ t, treeOf tc (found n) = some t) →
    (∀ n t, n.IsRs → treeOf tc (found n) = some t → HasClient t → ∃ text, Generates tc n t text) →
    Lists tc dir (Disk.start found) entries → Insensitive tc dir found entries := by
  intro h
  have hne : modText ≠ header ++ "" := by decide
  have hgenerates (n : FileName) (t : File) (_ : n.IsRs)
      (ht : treeOf (tools modText modTree "" ⟨"",[]⟩) (alone modRs modText n) = some t)
      (hclient : HasClient t) : ∃ text, Generates (tools modText modTree "" ⟨"",[]⟩) n t text := by
    obtain ⟨-,rfl⟩ := treeOf_alone hne ht
    exact absurd hclient (by decide)
  obtain ⟨u,hu,-⟩ := h (tools modText modTree "" ⟨"",[]⟩) [] (alone modRs modText) [modRs]
    (tools_faithful _ _ _ _) (fun n _ => readable_alone _ _ hne) hgenerates
    (lists_alone _ _ modRs modText)
  obtain ⟨d,hd,-⟩ := run_cons_eq_some.mp (buildAllClients_ok_iff.mp hu)
  have hsource : Source (Disk.start (alone modRs modText)) modRs := ⟨by decide,_,node_alone _ _⟩
  have hnamed := (entryStep_eq_some.mp hd).moduleOf_isSome hsource
  revert hnamed
  decide

end Clientless

end Build
end SodaPool
