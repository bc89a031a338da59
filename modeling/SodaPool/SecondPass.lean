import SodaPool.Directory

/-!
# The second pass

A pass that succeeded leaves a settled directory behind, in which another one changes
nothing, provided that the names of the outputs are accepted. They need not be: the text of
a stem may have blanks around the identifier it is read as.
-/

namespace SodaPool
namespace Build

open Syn OsPath Traversal Transition SodaPoolBuilder

section Second

variable {tc : Toolchain} {dir : OsStr} {found : FileName → Option Node}

variable (tc) in
/-- All that a pass can write is there already. -/
def Settled (d : Disk) : Prop :=
  ∀ n, Source d n → (moduleOf tc n).isSome ∧ ∃ t, tree tc d n.withExtensionRs = some t ∧
    (HasClient t → ∃ text, Generates tc n t text ∧
      d.node (outputFile n) = some (.file (.ok text)))

theorem Settled.congr {d d' : Disk} (h : Settled tc d) (heq : d'.node = d.node) :
    Settled tc d' := by
  simpa only [Settled,Source,tree,heq] using h

theorem Settled.turn {d : Disk} (h : Settled tc d) (n : FileName) :
    ∃ d', Turn tc d n d' ∧ d'.node = d.node := by
  by_cases hs : Source d n
  · obtain ⟨hmodule,t,ht,hout⟩ := h n hs
    by_cases hclient : HasClient t
    · obtain ⟨text,htext,hnode⟩ := hout hclient
      refine ⟨d.write (outputFile n) text,Turn.generated hs ht hclient htext (by simp [hnode]),?_⟩
      funext m
      by_cases hm : m = outputFile n
      · rw [hm,Disk.node_write_self,hnode]
      · exact d.node_write_of_ne text hm
    · exact ⟨d,Turn.clientless hs hmodule ht hclient,rfl⟩
  · exact ⟨d,Turn.passed hs,rfl⟩

theorem Settled.run {d : Disk} (h : Settled tc d) (entries : List FileName) :
    ∃ u, run (entryStep tc dir) d entries = some u ∧ u.node = d.node := by
  induction entries generalizing d with
  | nil => exact ⟨d,rfl,rfl⟩
  | cons n entries ih =>
    obtain ⟨d',hturn,hsame⟩ := h.turn n
    obtain ⟨u,hu,hnode⟩ := ih (h.congr hsame)
    exact ⟨u,run_cons_eq_some.mpr ⟨d',entryStep_eq_some.mpr hturn,hu⟩,hnode.trans hsame⟩

variable (tc) in
/-- If there is a client to generate from, the name of the output is accepted as well. -/
def PoolAccepted (d : Disk) (n : FileName) : Prop :=
  Source d n → ∀ t, tree tc d n.withExtensionRs = some t → HasClient t →
    (moduleOf tc (outputFile n)).isSome

theorem accepted_of_run {d u : Disk} {entries : List FileName}
    (hstart : ∀ n, d.Wrote n → (moduleOf tc n).isSome)
    (hp : Along (entryStep tc dir) (PoolAccepted tc) d entries)
    (hr : Transition.run (entryStep tc dir) d entries = some u) :
    ∀ n, u.Wrote n → (moduleOf tc n).isSome := by
  refine run_invariant (I := fun d' => ∀ n, d'.Wrote n → (moduleOf tc n).isSome) ?_ hstart hp hr
  intro s n t hI hpool ht m hm
  cases entryStep_eq_some.mp ht with
  | passed => exact hI m hm
  | clientless => exact hI m hm
  | generated hs htree hclient =>
    rcases (Disk.wrote_write _ _ _ _).mp hm with rfl | hm
    · exact hpool hs _ htree hclient
    · exact hI m hm

theorem settled_of_run (hf : tc.Faithful) {entries : List FileName} {u : Disk}
    (hl : Lists tc dir (Disk.start found) entries)
    (hr : Transition.run (entryStep tc dir) (Disk.start found) entries = some u)
    (hp : Along (entryStep tc dir) (PoolAccepted tc) (Disk.start found) entries) :
    Settled tc u := by
  have hgu : Grown tc found u := grown_of_run hf (grown_start found) hr
  rintro n ⟨hrs,contents,hnode⟩
  by_cases hwrote : u.Wrote n
  · refine ⟨accepted_of_run (fun m ⟨_,hm⟩ => by cases hm) hp hr n hwrote,?_⟩
    obtain ⟨text,htext⟩ := hwrote
    obtain ⟨k,-,-,-,rfl,-⟩ := hgu.origin n text htext
    obtain ⟨t,ht,hno⟩ := hgu.tree_of_wrote hf ⟨text,htext⟩
    exact ⟨t,by rwa [withExtensionRs_outputFile],fun hclient => absurd hclient hno⟩
  · have hfound : found n = some (.file contents) := by
      rw [← hgu.found_eq,← Disk.node_of_not_wrote hwrote,hnode]
    have hstart : (Disk.start found).node n = some (.file contents) := hfound
    have hmem : n ∈ entries := hl.1 n (by simp [hstart])
    obtain ⟨pre,post,s,t,rfl,hpre,hturn,hpost⟩ := turn_of_mem hr hmem
    have hgs : Grown tc found s := grown_of_run hf (grown_start found) hpre
    have hrest : Transition.run (entryStep tc dir) s (n::post) = some u :=
      run_cons_eq_some.mpr ⟨t,entryStep_eq_some.mpr hturn,hpost⟩
    have hs : Source s n := by
      refine ⟨hrs,contents,?_⟩
      rw [Disk.node_of_not_wrote (fun h => hwrote (wrote_of_run hrest h)),hgs.found_eq,hfound]
    refine ⟨hturn.moduleOf_isSome hs,?_⟩
    by_cases hservice : u.Wrote n.withExtensionRs
    · obtain ⟨tu,htu,hno⟩ := hgu.tree_of_wrote hf hservice
      exact ⟨tu,htu,fun hclient => absurd hclient hno⟩
    · obtain ⟨ts,hts⟩ := hturn.tree_eq_some hs
      have htfound : treeOf tc (found n.withExtensionRs) = some ts := by
        rw [← hgs.tree_of_not_wrote (fun h => hservice (wrote_of_run hrest h)),hts]
      refine ⟨ts,by rw [hgu.tree_of_not_wrote hservice,htfound],fun hclient => ?_⟩
      obtain ⟨text,htext,hmem⟩ := hturn.written hs hts hclient
      obtain ⟨text',hmem',hnode'⟩ := Disk.node_of_wrote (wrote_of_run hpost ⟨text,hmem⟩)
      exact ⟨text,htext,by rw [hnode',hgu.text_unique hmem' htfound htext]⟩

/-- A second pass succeeds only if the outputs of the first can be named. -/
theorem accepted_of_again {entries again : List FileName} {d u v : Disk}
    (hr : Transition.run (entryStep tc dir) d entries = some u) (hl : Lists tc dir u again)
    (hagain : Transition.run (entryStep tc dir) u again = some v) :
    Along (entryStep tc dir) (PoolAccepted tc) d entries := by
  apply along_of_split
  rintro pre n post s rfl hpre hs t ht hclient
  obtain ⟨s',hs',hr⟩ := run_append.mp hr
  rw [hpre] at hs'
  cases hs'
  obtain ⟨t',ht',hpost⟩ := run_cons_eq_some.mp hr
  obtain ⟨text,-,hmem⟩ := (entryStep_eq_some.mp ht').written hs ht hclient
  have hwrote : u.Wrote (outputFile n) := wrote_of_run hpost ⟨text,hmem⟩
  have hlisted : outputFile n ∈ again := by
    obtain ⟨text',-,hnode⟩ := Disk.node_of_wrote hwrote
    exact hl.1 _ (by simp [hnode])
  obtain ⟨pre',post',w,w',-,hw,hturn,-⟩ := turn_of_mem hagain hlisted
  obtain ⟨text',-,hnode⟩ := Disk.node_of_wrote (wrote_of_run hw hwrote)
  exact hturn.moduleOf_isSome ⟨isRs_outputFile n,_,hnode⟩

/-- No generated file has a client in it. After a pass that succeeded, another one succeeds
and changes no file, exactly if, whenever a file with a client came up in the first one, the
name of its output was an identifier as well. -/
theorem second_pass_iff (hf : tc.Faithful) {entries again : List FileName} {u : Disk}
    (hl : Lists tc dir (Disk.start found) entries)
    (hr : (configure.setDir dir).buildAllClients tc (Disk.start found) entries =
      (u,.ok ()))
    (hagain : Lists tc dir u again) :
    (∀ f text, formatted tc f = .ok text → ∃ t, tc.parseFile text = some t ∧ ¬ HasClient t) ∧
    ((∃ v, (configure.setDir dir).buildAllClients tc u again = (v,.ok ()) ∧
        ∀ n, v.node n = u.node n) ↔
      Along (entryStep tc dir) (PoolAccepted tc) (Disk.start found) entries) := by
  rw [buildAllClients_ok_iff] at hr
  simp only [buildAllClients_ok_iff]
  refine ⟨fun f text h => not_hasClient_of_formatted hf h,?_⟩
  constructor
  · rintro ⟨v,hv,-⟩
    exact accepted_of_again hr hagain hv
  · intro hp
    obtain ⟨v,hv,hnode⟩ := (settled_of_run hf hl hr hp).run again
    exact ⟨v,hv,fun n => congrFun hnode n⟩

/-- The directory of one file after its output was written. -/
def pooledDisk (name : FileName) : Disk :=
  (Disk.start (alone name fooText)).write (outputFile name) (header ++ fooPooledText)

theorem tree_foo {name : FileName} (hname : name.withExtensionRs = name) :
    tree fooTools (Disk.start (alone name fooText)) name.withExtensionRs = some fooTree := by
  rw [hname,tree,node_alone]
  exact parseFile_source fooTree fooPooled (by decide)

theorem turn_foo (name : FileName) (hrs : name.IsRs) (hname : name.withExtensionRs = name)
    (hmodule : moduleOf fooTools name = some ⟨"foo"⟩) (hout : outputFile name ≠ name) :
    Turn fooTools (Disk.start (alone name fooText)) name (pooledDisk name) := by
  have hformatted := formatted_sample fooText fooPooledText fooTree fooFile_generates
  have hother : (Disk.start (alone name fooText)).node (outputFile name) = none := if_neg hout
  refine Turn.generated ⟨hrs,_,node_alone _ _⟩ (tree_foo hname) (by decide)
    ⟨_,_,hmodule,fooTree_parses,hformatted⟩ ?_
  simp [hother]

theorem pass_foo {name : FileName} (dir : OsStr)
    (h : Turn fooTools (Disk.start (alone name fooText)) name (pooledDisk name)) :
    (configure.setDir dir).buildAllClients fooTools (Disk.start (alone name fooText))
      [name] = (pooledDisk name,.ok ()) :=
  buildAllClients_ok_iff.mpr (run_cons_eq_some.mpr ⟨_,entryStep_eq_some.mpr h,rfl⟩)

theorem lists_pooled (dir : OsStr) (name : FileName) :
    Lists fooTools dir (pooledDisk name) [name,outputFile name] := by
  apply lists_of_exists
  intro n
  by_cases hpool : n = outputFile name
  · simp [hpool,pooledDisk,Disk.node_write_self]
  · have hnode : (Disk.start (alone name fooText)).node n = alone name fooText n := rfl
    rw [pooledDisk,Disk.node_write_of_ne _ _ hpool,hnode,alone]
    by_cases hn : n = name <;> simp [hn,hpool]

theorem second_pass_foo : ∃ v, (configure.setDir []).buildAllClients fooTools
    (pooledDisk fooRs) [fooRs,outputFile fooRs] = (v,.ok ()) ∧
    ∀ n, v.node n = (pooledDisk fooRs).node n := by
  have hturn := turn_foo fooRs (by decide) (by decide) (by decide) (by decide)
  refine (second_pass_iff (tools_faithful _ _ _ _) (lists_alone fooTools [] fooRs fooText)
    (pass_foo [] hturn) (lists_pooled [] fooRs)).2.mpr ?_
  exact ⟨fun _ _ _ _ => by decide,fun _ _ => trivial⟩

/-- A blank before the dot: it is ignored in the name of the module, but not in the name of
the output. -/
def fooBlankRs : FileName := ⟨OsStr.ofString "foo .rs",by decide,by decide,by decide⟩

/-- A pass that succeeded, and another one that cannot. -/
theorem second_pass_fooBlank : ¬ ∀ (tc : Toolchain) (dir : OsStr) (found : FileName → Option Node)
    (entries again : List FileName) (u : Disk), tc.Faithful →
    Lists tc dir (Disk.start found) entries →
    (configure.setDir dir).buildAllClients tc (Disk.start found) entries = (u,.ok ()) →
    Lists tc dir u again →
    ∃ v, (configure.setDir dir).buildAllClients tc u again = (v,.ok ()) ∧
      ∀ n, v.node n = u.node n := by
  intro h
  have hturn := turn_foo fooBlankRs (by decide) (by decide) (by decide) (by decide)
  have hpass := pass_foo [] hturn
  have hlists := lists_pooled [] fooBlankRs
  obtain ⟨v,hv,-⟩ := h fooTools [] _ _ _ _ (tools_faithful _ _ _ _)
    (lists_alone fooTools [] fooBlankRs fooText) hpass hlists
  have haccepted := accepted_of_again (buildAllClients_ok_iff.mp hpass) hlists
    (buildAllClients_ok_iff.mp hv)
  have hsource : Source (Disk.start (alone fooBlankRs fooText)) fooBlankRs :=
    ⟨by decide,_,node_alone _ _⟩
  have hnamed := haccepted.1 hsource fooTree (tree_foo (by decide)) (by decide)
  revert hnamed
  decide

end Second

end Build
end SodaPool
