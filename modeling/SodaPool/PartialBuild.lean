import SodaPool.Services

/-!
# Where a build stops

A build stops at the first service that fails. Which one that is, how it fails and what has
been written by then can be said from the directory as it was found.
-/

namespace SodaPool
namespace Build

open Syn OsPath Traversal Transition SodaPoolBuilder

section Stops

variable {tc : Toolchain} {dir : OsStr} {d d' : Disk} {n : FileName} {services : List FileName}
  {e : Failure}

/-- How a service fails depends on its own two files only. -/
theorem buildClient_eq_error_congr (hread : d'.node n.withExtensionRs = d.node n.withExtensionRs)
    (hwrite : d'.node (outputFile n) = d.node (outputFile n)) :
    buildClient tc dir d' n = .error e ↔ buildClient tc dir d n = .error e := by
  have hparse : parseGrpcClientFile tc dir d' n.withExtensionRs =
      parseGrpcClientFile tc dir d n.withExtensionRs := by
    rw [parseGrpcClientFile,parseGrpcClientFile,hread]
  simp only [buildClient,hparse,outputFile_withExtensionRs,hwrite]
  cases parseGrpcClientFile tc dir d n.withExtensionRs with
  | error e' => exact Iff.rfl
  | ok f =>
    simp only [bind,Except.bind]
    split
    · exact Iff.rfl
    · cases formatted tc f with
      | error e' => exact Iff.rfl
      | ok text =>
        simp only
        split
        · exact Iff.rfl
        · simp [pure,Except.pure]

/-- What is left of a build that fails with `e` at `n`: the services before it are there, in
full, and what comes after is as it was found. -/
structure StopsAt (tc : Toolchain) (dir : OsStr) (d u : Disk) (e : Failure) (before : List FileName)
    (n : FileName) : Prop where
  fails : buildClient tc dir d n = .error e
  done : ∀ k ∈ before, ∃ text, Becomes tc d k text ∧ u.node (outputFile k) = some (.file (.ok text))
  rest : ∀ m, (∀ k ∈ before, m ≠ outputFile k) → u.node m = d.node m

/-- A service that goes through moves the stop of the others on by one. -/
theorem StopsAt.cons {k : FileName} {u : Disk} {text : String} {before after : List FileName}
    (hsafe : SafeMapping (k::(before ++ n::after))) (htext : Becomes tc d k text)
    (h : StopsAt tc dir (d.write (outputFile k) text) u e before n) :
    StopsAt tc dir d u e (k::before) n := by
  have hmem {m : FileName} (hm : m ∈ before) : m ∈ before ++ n::after := List.mem_append_left _ hm
  refine ⟨?_,?_,fun m hm => ?_⟩
  · obtain ⟨hread,hwrite⟩ := hsafe.apart (List.mem_append_right before List.mem_cons_self)
    exact (buildClient_eq_error_congr (Disk.node_write_of_ne d text hread)
      (Disk.node_write_of_ne d text hwrite)).mp h.fails
  · intro m hm
    rcases List.mem_cons.mp hm with rfl | hm
    · refine ⟨text,htext,?_⟩
      rw [h.rest _ (fun k hk => (hsafe.apart (hmem hk)).2.symm),Disk.node_write_self]
    · obtain ⟨text',htext',hnode⟩ := h.done m hm
      obtain ⟨hread,hwrite⟩ := hsafe.apart (hmem hm)
      exact ⟨text',(becomes_write_iff hread hwrite).mp htext',hnode⟩
  · rw [h.rest m (fun j hj => hm j (List.mem_cons_of_mem k hj)),
      Disk.node_write_of_ne d text (hm k List.mem_cons_self)]

/-- A service that goes through by itself becomes something. -/
theorem becomes_of_ok {k : FileName} (h : buildClient tc dir d k = .ok d') :
    ∃ text, Becomes tc d k text ∧ d' = d.write (outputFile k) text := by
  obtain ⟨t,text,ht,hclient,htext,hdir,rfl⟩ := buildClient_ok_iff.mp h
  exact ⟨text,⟨t,ht,hclient,htext,hdir⟩,rfl⟩

theorem ok_of_becomes {k : FileName} {text : String} (h : Becomes tc d k text) :
    buildClient tc dir d k = .ok (d.write (outputFile k) text) := by
  obtain ⟨t,ht,hclient,htext,hdir⟩ := h
  exact buildClient_ok_iff.mpr ⟨t,text,ht,hclient,htext,hdir,rfl⟩

/-- The build stops at the first service that fails by itself. -/
theorem stopsAt_of_fails {before after : List FileName} (hsafe : SafeMapping (before ++ n::after))
    (hbefore : ∀ k ∈ before, ∃ d', buildClient tc dir d k = .ok d')
    (hfails : buildClient tc dir d n = .error e) :
    ((configure.setDir dir).buildClients tc d (before ++ n::after)).2 = .error e ∧
      StopsAt tc dir d ((configure.setDir dir).buildClients tc d (before ++ n::after)).1 e
        before n := by
  induction before generalizing d with
  | nil =>
    rw [List.nil_append,buildClients_cons_error hfails]
    exact ⟨rfl,hfails,by simp,fun _ _ => rfl⟩
  | cons k before ih =>
    obtain ⟨dk,hbuild⟩ := hbefore k List.mem_cons_self
    obtain ⟨text,htext,rfl⟩ := becomes_of_ok hbuild
    rw [List.cons_append] at hsafe ⊢
    have hlater : ∀ m ∈ before,
        ∃ d', buildClient tc dir (d.write (outputFile k) text) m = .ok d' := by
      intro m hm
      obtain ⟨dm,hm'⟩ := hbefore m (List.mem_cons_of_mem k hm)
      obtain ⟨text',htext',-⟩ := becomes_of_ok hm'
      obtain ⟨hread,hwrite⟩ := hsafe.apart (List.mem_append_left (n::after) hm)
      exact ⟨_,ok_of_becomes ((becomes_write_iff hread hwrite).mpr htext')⟩
    have hfails' : buildClient tc dir (d.write (outputFile k) text) n = .error e := by
      obtain ⟨hread,hwrite⟩ := hsafe.apart (List.mem_append_right before List.mem_cons_self)
      exact (buildClient_eq_error_congr (Disk.node_write_of_ne d text hread)
        (Disk.node_write_of_ne d text hwrite)).mpr hfails
    rw [buildClients_cons hbuild]
    obtain ⟨herror,hstops⟩ := ih hsafe.tail hlater hfails'
    exact ⟨herror,hstops.cons hsafe htext⟩

/-- If any service fails by itself, there is a first one. -/
theorem exists_first (h : ∃ n ∈ services, ∃ e, buildClient tc dir d n = .error e) :
    ∃ before n after e, services = before ++ n::after ∧
      (∀ k ∈ before, ∃ d', buildClient tc dir d k = .ok d') ∧
        buildClient tc dir d n = .error e := by
  induction services with
  | nil => simp at h
  | cons k services ih =>
    cases hk : buildClient tc dir d k with
    | error e => exact ⟨[],k,services,e,rfl,by simp,hk⟩
    | ok d' =>
      obtain ⟨n,hn,e,he⟩ := h
      rcases List.mem_cons.mp hn with rfl | hn
      · rw [hk] at he
        cases he
      · obtain ⟨before,n,after,e,rfl,hbefore,hfails⟩ := ih ⟨n,hn,e,he⟩
        exact ⟨k::before,n,after,e,rfl,List.forall_mem_cons.mpr ⟨⟨d',hk⟩,hbefore⟩,hfails⟩

/-- A build of services that do not meet fails just if one of them does by itself. It fails with
what the first of these fails with; the outputs of those before it have been written, each as if
it were built alone, and every other file is as it was. -/
theorem stops_iff (tc : Toolchain) (dir : OsStr) (d : Disk) {services : List FileName}
    (hsafe : SafeMapping services) :
    (((configure.setDir dir).buildClients tc d services).2 ≠ .ok () ↔
        ∃ n ∈ services, ∃ e, buildClient tc dir d n = .error e) ∧
      ∀ before n after e, services = before ++ n::after →
        (∀ k ∈ before, ∃ d', buildClient tc dir d k = .ok d') → buildClient tc dir d n = .error e →
          ((configure.setDir dir).buildClients tc d services).2 = .error e ∧
            StopsAt tc dir d ((configure.setDir dir).buildClients tc d services).1 e before n := by
  refine ⟨⟨fun hnot => ?_,fun h => ?_⟩,?_⟩
  · by_contra hall
    push Not at hall
    have hbecomes : ∀ n ∈ services, ∃ text, Becomes tc d n text := by
      intro n hn
      cases hbuild : buildClient tc dir d n with
      | error e => exact absurd hbuild (hall n hn e)
      | ok d' => exact (becomes_of_ok hbuild).imp (fun _ => And.left)
    obtain ⟨u,hu⟩ := exists_run hsafe hbecomes
    exact hnot (congrArg Prod.snd (buildClients_ok_iff.mpr hu))
  · obtain ⟨before,n,after,e,rfl,hbefore,hfails⟩ := exists_first h
    rw [(stopsAt_of_fails hsafe hbefore hfails).1]
    simp
  · rintro before n after e rfl hbefore hfails
    exact stopsAt_of_fails hsafe hbefore hfails

theorem buildClient_foo : buildClient fooTools [] fooDisk foo =
    .ok (fooDisk.write (outputFile foo) (header ++ fooPooledText)) := by
  have hfound (n : FileName) (hn : n = fooRs ∨ n = outputFile fooRs) :
      fooDisk.node n = some (.file (.ok fooText)) := if_pos hn
  have htree : tree fooTools fooDisk foo.withExtensionRs = some fooTree := by
    rw [tree,hfound _ (by decide)]
    exact parseFile_source _ _ (by decide)
  have hgenerates : Generates fooTools foo fooTree (header ++ fooPooledText) :=
    ⟨_,_,by decide,fooTree_parses,formatted_sample fooText fooPooledText fooTree fooFile_generates⟩
  refine buildClient_ok_iff.mpr ⟨_,_,htree,by decide,hgenerates,?_,rfl⟩
  rw [hfound _ (by decide)]
  simp

/-- The file of the second service is missing. -/
theorem buildClient_missing : buildClient fooTools [] fooDisk myPackageRs =
    .error (.error (.ioError
      ("File not found: " ++ (join [] myPackageRs.withExtensionRs).display))) := by
  have hnot : ¬ (myPackageRs.withExtensionRs = fooRs ∨
    myPackageRs.withExtensionRs = outputFile fooRs) := by decide
  have hfound : fooDisk.node myPackageRs.withExtensionRs =
    if myPackageRs.withExtensionRs = fooRs ∨ myPackageRs.withExtensionRs = outputFile fooRs then
      some (.file (.ok fooText)) else none := rfl
  rw [if_neg hnot] at hfound
  rw [buildClient,parseGrpcClientFile,hfound]
  rfl

def bar : FileName := ⟨OsStr.ofString "bar",by decide,by decide,by decide⟩

/-- The first service is built, and the third one is not come to. -/
theorem stops_missing : ∃ e, buildClient fooTools [] fooDisk myPackageRs = .error e ∧
    ((configure.setDir []).buildClients fooTools fooDisk [foo,myPackageRs,bar]).2 = .error e ∧
      StopsAt fooTools [] fooDisk
        ((configure.setDir []).buildClients fooTools fooDisk [foo,myPackageRs,bar]).1 e [foo]
        myPackageRs := by
  have hsafe : SafeMapping [foo,myPackageRs,bar] := (safeMapping_iff (by decide)).mpr (by decide)
  have hbefore : ∀ k ∈ [foo], ∃ d', buildClient fooTools [] fooDisk k = .ok d' := by
    intro k hk
    rw [List.mem_singleton.mp hk]
    exact ⟨_,buildClient_foo⟩
  exact ⟨_,buildClient_missing,
    (stops_iff fooTools [] fooDisk hsafe).2 [foo] myPackageRs [bar] _ rfl hbefore
      buildClient_missing⟩

end Stops
end Build
end SodaPool
