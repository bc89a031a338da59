import SodaPool.Directory
import Mathlib.Data.List.Nodup

/-!
# The files of a list of services

A service is named with or without `.rs`. Its file is the one with that name and `.rs`,
unless it is named without and has a dot in its name; and no service disturbs another one,
unless one is called like the output of the other.
-/

namespace SodaPool
namespace Build

open Syn OsPath Traversal Transition SodaPoolBuilder

/-- The name of a service without a trailing `.rs`. -/
def baseName (service : FileName) : OsStr :=
  if OsStr.ofString ".rs" <:+ service.units then
    service.units.take (service.units.length - (OsStr.ofString ".rs").length)
  else service.units

/-- The file that is meant by a service. -/
def namedFile (service : FileName) : FileName where
  units := baseName service ++ OsStr.ofString ".rs"
  ne_nil := by simp [OsStr.ofString]
  no_slash := by
    rw [List.mem_append,not_or]
    refine ⟨fun h => service.no_slash ?_,by decide⟩
    rw [baseName] at h
    split at h
    · exact List.mem_of_mem_take h
    · exact h
  not_dots := by
    intro h
    have hlength : (baseName service ++ OsStr.ofString ".rs").length ≤ 2 := by
      rcases List.mem_pair.mp h with h | h <;> (rw [h]; decide)
    have hrs : (OsStr.ofString ".rs").length = 3 := by decide
    rw [List.length_append] at hlength
    omega

/-- Nothing is cut off but `.rs`. -/
def Undotted (service : FileName) : Prop :=
  service.units ≠ OsStr.ofString ".rs" ∧
    (OsStr.ofString ".rs" <:+ service.units ∨ OsStr.dot ∉ service.units.tail)

instance (service : FileName) : Decidable (Undotted service) :=
  inferInstanceAs (Decidable (_ ∧ _))

section Names

theorem baseName_of_suffix {n : FileName} (h : OsStr.ofString ".rs" <:+ n.units) :
    n.units = baseName n ++ OsStr.ofString ".rs" := by
  rw [baseName,if_pos h]
  obtain ⟨before,hbefore⟩ := h
  rw [← hbefore,List.length_append,Nat.add_sub_cancel,List.take_left]

theorem fileStem_eq_baseName_iff (n : FileName) : n.fileStem = baseName n ↔ Undotted n := by
  by_cases h : OsStr.ofString ".rs" <:+ n.units
  · have hunits := baseName_of_suffix h
    rw [Undotted,and_iff_left (Or.inl h)]
    constructor
    · intro hstem hrs
      rw [hrs] at hunits
      have hnil : baseName n = [] := List.append_left_eq_self.mp hunits.symm
      exact n.fileStem_ne_nil (hstem.trans hnil)
    · intro hrs
      have hbase : baseName n ≠ [] := by
        intro hnil
        rw [hnil] at hunits
        exact hrs hunits
      have hsplit : OsStr.rsplitFileAtDot (baseName n ++ OsStr.dot::OsStr.ofString "rs") =
          (baseName n,some (OsStr.ofString "rs")) :=
        OsStr.rsplitFileAtDot_append hbase (by decide)
      rw [FileName.fileStem,hunits]
      exact congrArg Prod.fst hsplit
  · have hbase : baseName n = n.units := if_neg h
    have hrs : n.units ≠ OsStr.ofString ".rs" := by
      intro heq
      exact h (heq ▸ List.suffix_rfl)
    rw [hbase,Undotted,and_iff_right hrs,or_iff_right h]
    exact OsStr.rsplitFileAtDot_eq_self_iff n.ne_nil

/-- The file that is read is the one that is meant, if nothing else is cut off. -/
theorem withExtensionRs_eq_namedFile_iff (n : FileName) :
    n.withExtensionRs = namedFile n ↔ Undotted n := by
  rw [← fileStem_eq_baseName_iff,FileName.ext_iff]
  exact List.append_left_inj _

theorem withExtensionRs_inj {n k : FileName} :
    n.withExtensionRs = k.withExtensionRs ↔ n.fileStem = k.fileStem := by
  rw [FileName.ext_iff]
  exact List.append_left_inj _

theorem outputFile_inj {n k : FileName} : outputFile n = outputFile k ↔ n.fileStem = k.fileStem := by
  rw [FileName.ext_iff]
  exact List.append_left_inj _

theorem outputFile_eq_withExtensionRs_iff {n k : FileName} :
    outputFile n = k.withExtensionRs ↔ k.fileStem = n.fileStem ++ OsStr.ofString "_pool" := by
  rw [← withExtensionRs_outputFile,withExtensionRs_inj,fileStem_outputFile,eq_comm]

/-- Every service reads the file that is meant, and no two of them meet in a file. -/
structure SafeMapping (services : List FileName) : Prop where
  reads_named : ∀ n ∈ services, n.withExtensionRs = namedFile n
  reads_nodup : (services.map FileName.withExtensionRs).Nodup
  writes_nodup : (services.map (fun n => outputFile n.withExtensionRs)).Nodup
  disjoint : ∀ n ∈ services, ∀ m ∈ services, outputFile n.withExtensionRs ≠ m.withExtensionRs

theorem SafeMapping.tail {n : FileName} {services : List FileName}
    (h : SafeMapping (n::services)) : SafeMapping services where
  reads_named m hm := h.reads_named m (List.mem_cons_of_mem n hm)
  reads_nodup := (List.nodup_cons.mp h.reads_nodup).2
  writes_nodup := (List.nodup_cons.mp h.writes_nodup).2
  disjoint m hm k hk := h.disjoint m (List.mem_cons_of_mem n hm) k (List.mem_cons_of_mem n hk)

/-- The first service stays away from the files of the others. -/
theorem SafeMapping.apart {n m : FileName} {services : List FileName}
    (h : SafeMapping (n::services)) (hm : m ∈ services) :
    m.withExtensionRs ≠ outputFile n ∧ outputFile m ≠ outputFile n := by
  have hread := h.disjoint n List.mem_cons_self m (List.mem_cons_of_mem n hm)
  have hwrites := (List.nodup_cons.mp h.writes_nodup).1
  simp only [outputFile_withExtensionRs] at hread hwrites
  exact ⟨hread.symm,fun heq => hwrites (List.mem_map.mpr ⟨m,hm,heq⟩)⟩

theorem SafeMapping.perm {services others : List FileName} (h : SafeMapping services)
    (hperm : others.Perm services) : SafeMapping others where
  reads_named n hn := h.reads_named n (hperm.mem_iff.mp hn)
  reads_nodup := (hperm.map _).nodup_iff.mpr h.reads_nodup
  writes_nodup := (hperm.map _).nodup_iff.mpr h.writes_nodup
  disjoint n hn m hm := h.disjoint n (hperm.mem_iff.mp hn) m (hperm.mem_iff.mp hm)

/-- Two things can go wrong: a dot in a name, and a name like that of an output. -/
theorem safeMapping_iff {services : List FileName} (hbases : (services.map baseName).Nodup) :
    SafeMapping services ↔ (∀ n ∈ services, Undotted n) ∧
      ∀ n ∈ services, ∀ m ∈ services, baseName m ≠ baseName n ++ OsStr.ofString "_pool" := by
  have hstems (h : ∀ n ∈ services, Undotted n) : ∀ n ∈ services, n.fileStem = baseName n :=
    fun n hn => (fileStem_eq_baseName_iff n).mpr (h n hn)
  constructor
  · intro h
    have hundotted : ∀ n ∈ services, Undotted n := fun n hn =>
      (withExtensionRs_eq_namedFile_iff n).mp (h.reads_named n hn)
    refine ⟨hundotted,fun n hn m hm heq => h.disjoint n hn m hm ?_⟩
    rw [outputFile_withExtensionRs,outputFile_eq_withExtensionRs_iff,hstems hundotted n hn,
      hstems hundotted m hm,heq]
  · rintro ⟨hundotted,hpool⟩
    have hinj : ∀ n ∈ services, ∀ m ∈ services, n.fileStem = m.fileStem → n = m := by
      intro n hn m hm heq
      rw [hstems hundotted n hn,hstems hundotted m hm] at heq
      exact List.inj_on_of_nodup_map hbases hn hm heq
    have hnodup : services.Nodup := List.Nodup.of_map _ hbases
    constructor
    · intro n hn
      exact (withExtensionRs_eq_namedFile_iff n).mpr (hundotted n hn)
    · refine List.Nodup.map_on (fun n hn m hm heq => hinj n hn m hm ?_) hnodup
      exact withExtensionRs_inj.mp heq
    · refine List.Nodup.map_on (fun n hn m hm heq => hinj n hn m hm ?_) hnodup
      rw [outputFile_withExtensionRs,outputFile_withExtensionRs] at heq
      exact outputFile_inj.mp heq
    · intro n hn m hm heq
      rw [outputFile_withExtensionRs,outputFile_eq_withExtensionRs_iff,hstems hundotted n hn,
        hstems hundotted m hm] at heq
      exact hpool n hn m hm heq

end Names

section Runs

variable (tc : Toolchain) (dir : OsStr)

/-- The text that a service has in its output, from the directory as it is. -/
def Becomes (d : Disk) (n : FileName) (text : String) : Prop :=
  ∃ t, tree tc d n.withExtensionRs = some t ∧ HasClient t ∧ Generates tc n t text ∧
    d.node (outputFile n) ≠ some .directory

/-- The loop over the services, as long as nothing fails. -/
def serviceStep (d : Disk) (n : FileName) : Option Disk := (buildClient tc dir d n).toOption

variable {tc} {dir} {d d' u : Disk} {n : FileName} {services : List FileName}

theorem buildClients_ok_iff : (configure.setDir dir).buildClients tc d services = (u,.ok ()) ↔
    run (serviceStep tc dir) d services = some u := tryForEach_ok_iff

theorem serviceStep_eq_some : serviceStep tc dir d n = some d' ↔
    ∃ text, Becomes tc d n text ∧ d' = d.write (outputFile n) text := by
  have hok : serviceStep tc dir d n = some d' ↔ buildClient tc dir d n = .ok d' := by
    rw [serviceStep]
    cases buildClient tc dir d n <;> simp [Except.toOption]
  rw [hok,buildClient_ok_iff]
  constructor
  · rintro ⟨t,text,ht,hclient,htext,hdir,rfl⟩
    exact ⟨text,⟨t,ht,hclient,htext,hdir⟩,rfl⟩
  · rintro ⟨text,⟨t,ht,hclient,htext,hdir⟩,rfl⟩
    exact ⟨t,text,ht,hclient,htext,hdir,rfl⟩

/-- A service is not concerned by the output of another. -/
theorem becomes_write_iff {m : FileName} {text text' : String}
    (hread : m.withExtensionRs ≠ outputFile n) (hwrite : outputFile m ≠ outputFile n) :
    Becomes tc (d.write (outputFile n) text') m text ↔ Becomes tc d m text := by
  simp only [Becomes,tree,Disk.node_write_of_ne d text' hread,Disk.node_write_of_ne d text' hwrite]

theorem buildClients_cons (h : buildClient tc dir d n = .ok d') :
    (configure.setDir dir).buildClients tc d (n::services) =
      (configure.setDir dir).buildClients tc d' services := by
  change tryForEach _ d (n::services) = tryForEach _ d' services
  rw [tryForEach,h]

theorem buildClients_cons_error {e : Failure} (h : buildClient tc dir d n = .error e) :
    (configure.setDir dir).buildClients tc d (n::services) = (d,.error e) := by
  change tryForEach _ d (n::services) = _
  rw [tryForEach,h]

theorem exists_run (hsafe : SafeMapping services)
    (h : ∀ n ∈ services, ∃ text, Becomes tc d n text) :
    ∃ u, run (serviceStep tc dir) d services = some u := by
  induction services generalizing d with
  | nil => exact ⟨d,rfl⟩
  | cons n services ih =>
    obtain ⟨text,htext⟩ := h n List.mem_cons_self
    have hrest : ∀ m ∈ services, ∃ text', Becomes tc (d.write (outputFile n) text) m text' := by
      intro m hm
      obtain ⟨text',htext'⟩ := h m (List.mem_cons_of_mem n hm)
      obtain ⟨hread,hwrite⟩ := hsafe.apart hm
      exact ⟨text',(becomes_write_iff hread hwrite).mpr htext'⟩
    obtain ⟨u,hu⟩ := ih hsafe.tail hrest
    exact ⟨u,run_cons_eq_some.mpr ⟨_,serviceStep_eq_some.mpr ⟨text,htext,rfl⟩,hu⟩⟩

end Runs

section Orders

variable (tc : Toolchain) (dir : OsStr) (d : Disk) (services : List FileName)

variable {tc} {dir} {d} {services}

end Orders

def foo : FileName := ⟨OsStr.ofString "foo",by decide,by decide,by decide⟩

def myPackageRs : FileName := ⟨OsStr.ofString "my.package.rs",by decide,by decide,by decide⟩

/-- Two client files of the same text. -/
def fooDisk : Disk := Disk.start (fun n =>
  if n = fooRs ∨ n = outputFile fooRs then some (.file (.ok fooText)) else none)

end Build
end SodaPool
