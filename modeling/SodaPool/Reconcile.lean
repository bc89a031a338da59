import Mathlib.Data.List.Perm.Basic
import Mathlib.Order.WellFounded
import Mathlib.Data.Prod.Lex
import SodaPool.Tasks
import SodaPool.Transition

/-!
# A DNS check on its own

Nothing else touches the lists while `check_dns` goes through the answer. So every address
is met with the lists as they were found: it keeps its channel, or its entry, or it is
connected to, once for each time it is listed.
-/

namespace SodaPool
namespace Reconcile

open Containers Transition

variable {Channel : Type}

/-- A `check_dns`, the lists it works on and the attempts to connect it has made. -/
structure Check (Channel : Type) where
  lists : Lists Channel
  point : Option (CheckDns Channel)
  attempts : List (IpAddr × Option Channel)

def start (s : Lists Channel) : Check Channel := ⟨s,some .resolve,[]⟩

def attempted (i : Input Channel) : CheckDns Channel → List (IpAddr × Option Channel)
  | .connect address _ => [(address,i.outcome)]
  | _ => []

def step (c : Check Channel) (i : Input Channel) : Option (Check Channel) :=
  c.point.map (fun p => ⟨(p.step c.lists i).1,(p.step c.lists i).2,c.attempts ++ attempted i p⟩)

/-- The addresses that were met, and where each of them went. -/
inductive Sorts (s : Lists Channel) : List IpAddr → List (IpAddr × Channel) →
    List DelayedAddress → List (IpAddr × Option Channel) → Prop
  | nil : Sorts s [] [] [] []
  | ready {as ready broken attempts} {a : IpAddr} {channel : Channel} :
      Sorts s as ready broken attempts → s.ready.find a = some channel →
      Sorts s (as ++ [a]) (ready ++ [(a,channel)]) broken attempts
  | broken {as ready broken attempts} {a : IpAddr} {entry : DelayedAddress} :
      Sorts s as ready broken attempts → s.ready.find a = none →
      entry ∈ s.broken.addresses → entry.address = a →
      Sorts s (as ++ [a]) ready (broken ++ [entry]) attempts
  | connected {as ready broken attempts} {a : IpAddr} {channel : Channel} :
      Sorts s as ready broken attempts → s.ready.find a = none →
      a ∉ keys DelayedAddress.address s.broken.addresses →
      Sorts s (as ++ [a]) (ready ++ [(a,channel)]) broken (attempts ++ [(a,some channel)])
  | refused {as ready broken attempts} {a : IpAddr} (now : ℕ) :
      Sorts s as ready broken attempts → s.ready.find a = none →
      a ∉ keys DelayedAddress.address s.broken.addresses →
      Sorts s (as ++ [a]) ready (broken ++ [DelayedAddress.ofAddress now a])
        (attempts ++ [(a,none)])

/-- The part of the answer that has been met is sorted. -/
def Partial (s : Lists Channel) (answer as : List IpAddr) (l : Locals Channel)
    (attempts : List (IpAddr × Option Channel)) : Prop :=
  ∃ met, answer = met ++ as ∧ Sorts s met l.ready l.broken attempts

/-- Where a check stands, once it has an answer. -/
inductive Sorting (s : Lists Channel) (answer : List IpAddr) : Check Channel → Prop
  | find {a l attempts} : Partial s answer (a::l.addresses) l attempts →
      Sorting s answer ⟨s,some (.find a l),attempts⟩
  | getAddress {a l attempts} : Partial s answer (a::l.addresses) l attempts →
      s.ready.find a = none → Sorting s answer ⟨s,some (.getAddress a l),attempts⟩
  | connect {a l attempts} : Partial s answer (a::l.addresses) l attempts →
      s.ready.find a = none → a ∉ keys DelayedAddress.address s.broken.addresses →
      Sorting s answer ⟨s,some (.connect a l),attempts⟩
  | replaceReady {l attempts} : Sorts s answer l.ready l.broken attempts →
      Sorting s answer ⟨s,some (.replaceReady l),attempts⟩
  | replaceBroken {l attempts} : Sorts s answer l.ready l.broken attempts →
      Sorting s answer
        ⟨{ s with ready := s.ready.replaceWith l.ready },some (.replaceBroken l),attempts⟩
  | done {ready broken attempts} : Sorts s answer ready broken attempts →
      Sorting s answer
        ⟨⟨s.ready.replaceWith ready,s.broken.replaceWith broken⟩,none,attempts⟩

variable {s : Lists Channel} {answer : List IpAddr}

theorem step_eq_some {c c' : Check Channel} {i : Input Channel} :
    step c i = some c' ↔ ∃ p, c.point = some p ∧ p.Goes c.lists i c'.lists c'.point ∧
      c'.attempts = c.attempts ++ attempted i p := by
  obtain ⟨lists',point',attempts'⟩ := c'
  simp only [step,Option.map_eq_some_iff,Check.mk.injEq]
  constructor
  · rintro ⟨p,hp,hlists,hpoint,hattempts⟩
    exact ⟨p,hp,CheckDns.goes_of_step (Prod.ext hlists hpoint),hattempts.symm⟩
  · rintro ⟨p,hp,hgoes,hattempts⟩
    exact ⟨p,hp,by rw [hgoes.step_eq],by rw [hgoes.step_eq],hattempts.symm⟩

/-- The head of the loop. -/
theorem Partial.loop {l : Locals Channel} {attempts : List (IpAddr × Option Channel)}
    (h : Partial s answer l.addresses l attempts) :
    Sorting s answer ⟨s,some (CheckDns.loop l),attempts⟩ := by
  obtain ⟨addresses,ready,broken⟩ := l
  cases addresses with
  | nil =>
    obtain ⟨met,rfl,hsorts⟩ := h
    rw [List.append_nil]
    exact .replaceReady hsorts
  | cons a rest => exact .find h

/-- An address that is sorted is met. -/
theorem Partial.meets {l l' : Locals Channel} {a : IpAddr}
    {attempts attempts' : List (IpAddr × Option Channel)}
    (h : Partial s answer (a::l.addresses) l attempts) (hl : l'.addresses = l.addresses)
    (hsort : ∀ met, Sorts s met l.ready l.broken attempts →
      Sorts s (met ++ [a]) l'.ready l'.broken attempts') :
    Sorting s answer ⟨s,some (CheckDns.loop l'),attempts'⟩ := by
  obtain ⟨met,hanswer,hsorts⟩ := h
  refine Partial.loop ⟨met ++ [a],?_,hsort met hsorts⟩
  rw [hanswer,hl,List.append_assoc]
  rfl

theorem Sorting.step {c c' : Check Channel} {i : Input Channel} (h : Sorting s answer c)
    (hstep : step c i = some c') : Sorting s answer c' := by
  obtain ⟨p,hp,hgoes,hattempts⟩ := step_eq_some.mp hstep
  obtain ⟨lists',point',attempts'⟩ := c'
  simp only at hgoes hattempts
  subst hattempts
  cases h with
  | find hpart =>
    cases hp
    simp only [attempted,List.append_nil]
    cases hgoes with
    | ready hf => exact hpart.meets rfl (fun _ hsorts => hsorts.ready hf)
    | notReady hf => exact .getAddress hpart hf
  | getAddress hpart hf =>
    cases hp
    simp only [attempted,List.append_nil]
    cases hgoes with
    | broken hg =>
      obtain ⟨hmem,haddress⟩ := BrokenEndpoints.getAddress_mem hg
      exact hpart.meets rfl (fun _ hsorts => hsorts.broken hf hmem haddress)
    | unknown hg => exact .connect hpart hf (BrokenEndpoints.getAddress_eq_none.mp hg)
  | connect hpart hf hg =>
    cases hp
    cases hgoes with
    | connected ho =>
      rw [attempted,ho]
      exact hpart.meets rfl (fun _ hsorts => hsorts.connected hf hg)
    | refused ho =>
      rw [attempted,ho]
      exact hpart.meets rfl (fun _ hsorts => hsorts.refused _ hf hg)
  | replaceReady hsorts =>
    cases hp
    simp only [attempted,List.append_nil]
    cases hgoes
    exact .replaceBroken hsorts
  | replaceBroken hsorts =>
    cases hp
    simp only [attempted,List.append_nil]
    cases hgoes
    exact .done hsorts
  | done => cases hp

/-- A check that nothing disturbs comes to its end. -/
theorem terminates (s : Lists Channel) : Terminates step (start s) := by
  have hnext {c : Check Channel} (h : ∀ p i s' o, c.point = some p → p.Goes c.lists i s' o →
      ∀ attempts, Terminates step (⟨s',o,attempts⟩ : Check Channel)) : Terminates step c := by
    constructor
    rintro c' ⟨i,hstep⟩
    obtain ⟨p,hp,hgoes,-⟩ := step_eq_some.mp hstep
    exact h p i _ _ hp hgoes _
  have hdone (lists : Lists Channel) (attempts) :
      Terminates step (⟨lists,none,attempts⟩ : Check Channel) :=
    hnext (fun p i s' o hp _ => by cases hp)
  have hloop (addresses : List IpAddr) : ∀ (lists : Lists Channel) ready broken attempts,
      Terminates step (⟨lists,some (CheckDns.loop ⟨addresses,ready,broken⟩),attempts⟩ : Check Channel) := by
    induction addresses with
    | nil =>
      intro lists ready broken attempts
      refine hnext (fun p i s' o hp hgoes attempts => ?_)
      cases hp
      cases hgoes
      refine hnext (fun p i s' o hp hgoes attempts => ?_)
      cases hp
      cases hgoes
      exact hdone _ _
    | cons a addresses ih =>
      intro lists ready broken attempts
      refine hnext (fun p i s' o hp hgoes attempts => ?_)
      cases hp
      cases hgoes with
      | ready => exact ih _ _ _ _
      | notReady =>
        refine hnext (fun p i s' o hp hgoes attempts => ?_)
        cases hp
        cases hgoes with
        | broken => exact ih _ _ _ _
        | unknown =>
          refine hnext (fun p i s' o hp hgoes attempts => ?_)
          cases hp
          cases hgoes <;> exact ih _ _ _ _
  refine hnext (fun p i s' o hp hgoes attempts => ?_)
  cases hp
  cases hgoes with
  | resolved => exact hloop _ _ _ _ _
  | unresolved => exact hdone _ _

namespace Sorts

variable {as : List IpAddr} {ready : List (IpAddr × Channel)} {broken : List DelayedAddress}
  {attempts : List (IpAddr × Option Channel)}

/-- Only what is neither ready nor broken is connected to. -/
theorem mem_attempts (h : Sorts s as ready broken attempts) {a : IpAddr} {o : Option Channel}
    (ha : (a,o) ∈ attempts) :
    s.ready.find a = none ∧ a ∉ keys DelayedAddress.address s.broken.addresses := by
  induction h with
  | nil => cases ha
  | ready _ _ ih => exact ih ha
  | broken _ _ _ _ ih => exact ih ha
  | connected _ hf hg ih | refused _ _ hf hg ih =>
    rcases List.mem_append.mp ha with ha | ha
    · exact ih ha
    · cases List.mem_singleton.mp ha
      exact ⟨hf,hg⟩

theorem exists_attempt (h : Sorts s as ready broken attempts) {a : IpAddr} (ha : a ∈ as)
    (hf : s.ready.find a = none) (hg : a ∉ keys DelayedAddress.address s.broken.addresses) :
    ∃ o, (a,o) ∈ attempts := by
  induction h with
  | nil => cases ha
  | ready _ hr ih =>
    rcases List.mem_append.mp ha with ha | ha
    · exact ih ha
    · cases List.mem_singleton.mp ha
      rw [hf] at hr
      cases hr
  | broken _ _ hb hba ih =>
    rcases List.mem_append.mp ha with ha | ha
    · exact ih ha
    · cases List.mem_singleton.mp ha
      exact absurd (List.mem_map.mpr ⟨_,hb,hba⟩) hg
  | connected _ _ _ ih | refused _ _ _ _ ih =>
    rcases List.mem_append.mp ha with ha | ha
    · obtain ⟨o,ho⟩ := ih ha
      exact ⟨o,List.mem_append_left _ ho⟩
    · cases List.mem_singleton.mp ha
      exact ⟨_,List.mem_append_right _ List.mem_cons_self⟩

theorem mem_ready (h : Sorts s as ready broken attempts) {a : IpAddr} {channel : Channel} :
    (a,channel) ∈ ready ↔
      a ∈ as ∧ s.ready.find a = some channel ∨ (a,some channel) ∈ attempts := by
  induction h with
  | nil => simp
  | ready _ hr ih =>
    simp only [List.mem_append,List.mem_singleton,Prod.mk.injEq,ih]
    grind
  | broken _ hf _ _ ih =>
    simp only [List.mem_append,List.mem_singleton,ih]
    grind
  | connected _ hf _ ih =>
    simp only [List.mem_append,List.mem_singleton,Prod.mk.injEq,Option.some.injEq,ih]
    grind
  | refused _ _ hf _ ih =>
    simp only [List.mem_append,List.mem_singleton,Prod.mk.injEq,reduceCtorEq,and_false,or_false,ih]
    grind

theorem mem_broken (h : Sorts s as ready broken attempts) {d : DelayedAddress} (hd : d ∈ broken) :
    s.ready.find d.address = none ∧ (d ∈ s.broken.addresses ∨
      (d.address,none) ∈ attempts ∧ d.failedTimes = 1) := by
  induction h with
  | nil => cases hd
  | ready _ _ ih => exact ih hd
  | broken _ hf hg hga ih =>
    rcases List.mem_append.mp hd with hd | hd
    · exact ih hd
    · cases List.mem_singleton.mp hd
      rw [hga]
      exact ⟨hf,.inl hg⟩
  | connected _ _ _ ih =>
    exact (ih hd).imp_right (.imp_right (.imp_left (List.mem_append_left _)))
  | refused now _ hf _ ih =>
    rcases List.mem_append.mp hd with hd | hd
    · exact (ih hd).imp_right (.imp_right (.imp_left (List.mem_append_left _)))
    · cases List.mem_singleton.mp hd
      refine ⟨hf,.inr ⟨List.mem_append_right _ List.mem_cons_self,?_⟩⟩
      exact BackoffTracker.failedTimes_fromFailedTimes now 1

theorem mem_of_refused (h : Sorts s as ready broken attempts) {a : IpAddr}
    (ha : (a,none) ∈ attempts) : ∃ d ∈ broken, d.address = a := by
  induction h with
  | nil => cases ha
  | ready _ _ ih => exact ih ha
  | broken _ _ _ _ ih =>
    obtain ⟨d,hd,hda⟩ := ih ha
    exact ⟨d,List.mem_append_left _ hd,hda⟩
  | connected _ _ _ ih =>
    rcases List.mem_append.mp ha with ha | ha
    · exact ih ha
    · cases List.mem_singleton.mp ha
  | refused now _ _ _ ih =>
    rcases List.mem_append.mp ha with ha | ha
    · obtain ⟨d,hd,hda⟩ := ih ha
      exact ⟨d,List.mem_append_left _ hd,hda⟩
    · cases List.mem_singleton.mp ha
      exact ⟨_,List.mem_append_right _ List.mem_cons_self,rfl⟩

/-- Each address that is met goes to one place, each time. -/
theorem perm (h : Sorts s as ready broken attempts) :
    (keys Prod.fst ready ++ keys DelayedAddress.address broken).Perm as := by
  induction h with
  | nil => exact List.Perm.refl _
  | ready _ _ ih | connected _ _ _ ih =>
    simp only [keys,List.map_append,List.map_cons,List.map_nil] at ih ⊢
    grind
  | broken _ _ _ ha ih =>
    simp only [keys,List.map_append,List.map_cons,List.map_nil,ha] at ih ⊢
    grind
  | refused now _ _ _ ih =>
    have ha (a : IpAddr) : (DelayedAddress.ofAddress now a).address = a := rfl
    simp only [keys,List.map_append,List.map_cons,List.map_nil,ha] at ih ⊢
    grind

theorem mem_listed (h : Sorts s as ready broken attempts) (a : IpAddr) :
    a ∈ keys Prod.fst ready ∨ a ∈ keys DelayedAddress.address broken ↔ a ∈ as := by
  rw [← List.mem_append]
  exact h.perm.mem_iff

/-- The channel of an address that was ready stays. -/
theorem find_kept (h : Sorts s as ready broken attempts) {a : IpAddr} (ha : a ∈ as)
    {channel : Channel} (hf : s.ready.find a = some channel) :
    (s.ready.replaceWith ready).find a = some channel ∧ ∀ o, (a,o) ∉ attempts := by
  have hno : ∀ o, (a,o) ∉ attempts := by
    intro o ho
    rw [(h.mem_attempts ho).1] at hf
    cases hf
  refine ⟨ReadyChannels.find_eq_some (h.mem_ready.mpr (.inl ⟨ha,hf⟩)) (fun c hc => ?_),hno⟩
  rcases h.mem_ready.mp hc with ⟨-,hfind⟩ | hc
  · rw [hf] at hfind
    exact (Option.some.inj hfind).symm
  · exact absurd hc (hno _)

theorem find_none (h : Sorts s as ready broken attempts) {a : IpAddr}
    (hf : s.ready.find a = none) (hno : ∀ c, (a,some c) ∉ attempts) :
    (s.ready.replaceWith ready).find a = none := by
  rw [ReadyChannels.find_eq_none]
  intro hmem
  obtain ⟨⟨b,c⟩,hbc,rfl⟩ := List.mem_map.mp hmem
  rcases h.mem_ready.mp hbc with ⟨-,hfind⟩ | ha
  · rw [hf] at hfind
    cases hfind
  · exact hno c ha

/-- An entry of the broken heap stays, and no other one of its address appears. -/
theorem entry_kept (h : Sorts s as ready broken attempts)
    (hs : Unique DelayedAddress.address s.broken.addresses) {e : DelayedAddress}
    (he : e ∈ s.broken.addresses) (ha : e.address ∈ as) (hf : s.ready.find e.address = none) :
    (s.ready.replaceWith ready).find e.address = none ∧
      (∀ order, (s.broken.replaceWith broken).getAddress e.address order = some e) ∧
      (∀ d ∈ broken, d.address = e.address → d = e) ∧ ∀ o, (e.address,o) ∉ attempts := by
  have hno : ∀ o, (e.address,o) ∉ attempts := fun o ho =>
    (h.mem_attempts ho).2 (List.mem_map_of_mem he)
  have hsame : ∀ d ∈ broken, d.address = e.address → d = e := by
    intro d hd hde
    rcases (h.mem_broken hd).2 with hold | ⟨ho,-⟩
    · exact List.inj_on_of_nodup_map hs hold he hde
    · rw [hde] at ho
      exact absurd ho (hno _)
  have hready := h.find_none hf (fun c => hno (some c))
  refine ⟨hready,fun order => ?_,hsame,hno⟩
  have hmem := ((h.mem_listed e.address).mpr ha).resolve_left (ReadyChannels.find_eq_none.mp hready)
  cases hget : (s.broken.replaceWith broken).getAddress e.address order with
  | none => exact absurd hmem (BrokenEndpoints.getAddress_eq_none.mp hget)
  | some d =>
    obtain ⟨hd,hde⟩ := BrokenEndpoints.getAddress_mem hget
    rw [hsame d hd hde]

/-- After a success the address has a channel that was made for it. -/
theorem find_connected (h : Sorts s as ready broken attempts) {a : IpAddr}
    (hf : s.ready.find a = none) {channel : Channel} (hc : (a,some channel) ∈ attempts) :
    ∃ c, (s.ready.replaceWith ready).find a = some c ∧ (a,some c) ∈ attempts := by
  cases hfind : (s.ready.replaceWith ready).find a with
  | none =>
    have hmem : a ∈ keys Prod.fst ready :=
      List.mem_map_of_mem (f := Prod.fst) (h.mem_ready.mpr (.inr hc))
    exact absurd hmem (ReadyChannels.find_eq_none.mp hfind)
  | some c =>
    refine ⟨c,rfl,?_⟩
    rcases h.mem_ready.mp (ReadyChannels.find_mem hfind) with ⟨-,hfind⟩ | hc
    · rw [hf] at hfind
      cases hfind
    · exact hc

/-- An entry of an address that had none comes from one failure. -/
theorem failedTimes_fresh (h : Sorts s as ready broken attempts) {a : IpAddr}
    (hg : a ∉ keys DelayedAddress.address s.broken.addresses) {d : DelayedAddress}
    (hd : d ∈ broken) (hda : d.address = a) : d.failedTimes = 1 := by
  rcases (h.mem_broken hd).2 with hold | ⟨-,hone⟩
  · exact absurd (List.mem_map.mpr ⟨d,hold,hda⟩) hg
  · exact hone

end Sorts

/-- What is to come of the lists, by the answer and the attempts to connect. -/
structure Reconciled (s : Lists Channel) (answer : List IpAddr)
    (attempts : List (IpAddr × Option Channel)) (s' : Lists Channel) : Prop where
  listed : ∀ a, a ∈ s'.ready.ips ∨ a ∈ keys DelayedAddress.address s'.broken.addresses ↔ a ∈ answer
  ready : ∀ a ∈ answer, ∀ channel, s.ready.find a = some channel →
    s'.ready.find a = some channel ∧ ∀ o, (a,o) ∉ attempts
  broken : ∀ a ∈ answer, s.ready.find a = none → ∀ e ∈ s.broken.addresses, e.address = a →
    s'.ready.find a = none ∧ (∀ order, s'.broken.getAddress a order = some e) ∧
      (∀ d ∈ s'.broken.addresses, d.address = a → d = e) ∧ ∀ o, (a,o) ∉ attempts
  fresh : ∀ a ∈ answer, s.ready.find a = none →
    a ∉ keys DelayedAddress.address s.broken.addresses →
    (∃ o, (a,o) ∈ attempts) ∧
      (∀ channel, (a,some channel) ∈ attempts →
        ∃ c, s'.ready.find a = some c ∧ (a,some c) ∈ attempts) ∧
      ((a,none) ∈ attempts → ∀ order, ∃ d, s'.broken.getAddress a order = some d ∧
        d.failedTimes = 1) ∧
      ∀ d ∈ s'.broken.addresses, d.address = a → d.failedTimes = 1

/-- The effects can be read off the places where the addresses went. -/
theorem Sorts.reconciled {ready : List (IpAddr × Channel)} {broken : List DelayedAddress}
    {attempts : List (IpAddr × Option Channel)}
    (hs : Unique DelayedAddress.address s.broken.addresses)
    (h : Sorts s answer ready broken attempts) :
    Reconciled s answer attempts ⟨s.ready.replaceWith ready,s.broken.replaceWith broken⟩ := by
  refine ⟨h.mem_listed,?_,?_,?_⟩
  · intro a ha channel hf
    exact h.find_kept ha hf
  · rintro a ha hf e he rfl
    exact h.entry_kept hs he ha hf
  · intro a ha hf hnot
    refine ⟨h.exists_attempt ha hf hnot,fun channel hc => h.find_connected hf hc,fun ho order => ?_,
      fun d hd hda => h.failedTimes_fresh hnot hd hda⟩
    obtain ⟨d,hd,rfl⟩ := h.mem_of_refused ho
    cases hget : (s.broken.replaceWith broken).getAddress d.address order with
    | none => exact absurd (List.mem_map_of_mem hd) (BrokenEndpoints.getAddress_eq_none.mp hget)
    | some e =>
      obtain ⟨he,hed⟩ := BrokenEndpoints.getAddress_mem hget
      exact ⟨e,rfl,h.failedTimes_fresh hnot he hed⟩

/-- A check with an answer sorts it, one without changes nothing. -/
theorem sorting_of_run {i : Input Channel} {is : List (Input Channel)} {c : Check Channel}
    (h : run step (start s) (i::is) = some c) :
    (∀ answer, i.answer = some answer → Sorting s answer c) ∧
      (i.answer = none → c = ⟨s,none,[]⟩) := by
  obtain ⟨⟨lists,point,attempts⟩,hstep,hrun⟩ := run_cons_eq_some.mp h
  obtain ⟨p,hp,hgoes,hattempts⟩ := step_eq_some.mp hstep
  cases hp
  simp only [start,attempted,List.append_nil] at hattempts
  subst hattempts
  cases hgoes with
  | @resolved addresses hi =>
    rw [hi]
    refine ⟨fun answer ha => ?_,fun hnone => by cases hnone⟩
    cases ha
    have hfirst : Sorting s addresses ⟨s,some (CheckDns.loop ⟨addresses,[],[]⟩),[]⟩ :=
      Partial.loop ⟨[],rfl,.nil⟩
    exact run_invariant (P := fun _ _ => True) (fun _ _ _ hI _ ht => hI.step ht) hfirst
      (along_of_forall (fun _ _ _ => trivial) _) hrun
  | unresolved hi =>
    rw [hi]
    refine ⟨fun answer ha => (by cases ha),fun _ => ?_⟩
    cases is with
    | nil =>
      cases hrun
      rfl
    | cons j is =>
      obtain ⟨c',hc',-⟩ := run_cons_eq_some.mp hrun
      cases hc'

/-- Alone, a check always comes to its end. Without an answer it leaves the lists as they
were, with one it reconciles them. -/
theorem reconciles (s : Lists Channel) (hs : Unique DelayedAddress.address s.broken.addresses) :
    Terminates step (start s) ∧ ∀ is c, run step (start s) is = some c →
      (c.point ≠ none → ∀ i, ∃ c', step c i = some c') ∧
      (c.point = none → ∃ i rest, is = i::rest ∧ (i.answer = none → c.lists = s) ∧
        ∀ answer, i.answer = some answer → Reconciled s answer c.attempts c.lists) := by
  refine ⟨terminates s,fun is c hr => ⟨fun hpoint i => ?_,fun hpoint => ?_⟩⟩
  · obtain ⟨p,hp⟩ := Option.ne_none_iff_exists'.mp hpoint
    exact ⟨_,by rw [step,hp]; rfl⟩
  · cases is with
    | nil =>
      cases hr
      cases hpoint
    | cons i is =>
      obtain ⟨hsome,hnone⟩ := sorting_of_run hr
      refine ⟨i,is,rfl,fun hi => by rw [hnone hi],fun answer hi => ?_⟩
      cases hsome answer hi with
      | done hsorts => exact hsorts.reconciled hs
      | _ => cases hpoint

/-- One address is ready, one is broken, a third one refuses. -/
def mixed : Lists Unit :=
  ⟨⟨[(.v4 1,())],0⟩,⟨[DelayedAddress.ofAddress 0 (.v4 2)],.new⟩⟩

/-- The check of an answer with the three of them, one of which is listed twice. -/
def mixedInputs : List (Input Unit) :=
  { now := 5, answer := some [.v4 1,.v4 2,.v4 3,.v4 1] }::List.replicate 9 { now := 7 }

theorem reconciles_mixed : ∃ c, run step (start mixed) mixedInputs = some c ∧ c.point = none ∧
    Reconciled mixed [.v4 1,.v4 2,.v4 3,.v4 1] c.attempts c.lists := by
  have hend : (run step (start mixed) mixedInputs).map (fun c => c.point.isNone) = some true := by
    decide
  obtain ⟨c,hc,hpoint⟩ := Option.map_eq_some_iff.mp hend
  have hnone : c.point = none := Option.isNone_iff_eq_none.mp hpoint
  obtain ⟨i,rest,his,-,hanswer⟩ := ((reconciles mixed (List.nodup_singleton _)).2 _ c hc).2 hnone
  cases his
  exact ⟨c,hc,hnone,hanswer _ rfl⟩

/-- Alone, a check leaves one entry for each address of its answer exactly when the answer
lists each address once. -/
theorem once_iff {i : Input Channel} {is : List (Input Channel)} {c : Check Channel}
    (hr : run step (start s) (i::is) = some c) (hpoint : c.point = none)
    (hi : i.answer = some answer) :
    (∀ a ∈ answer,
      (c.lists.ready.ips ++ keys DelayedAddress.address c.lists.broken.addresses).count a = 1) ↔
      answer.Nodup := by
  have hperm : (c.lists.ready.ips ++ keys DelayedAddress.address c.lists.broken.addresses).Perm
      answer := by
    cases (sorting_of_run hr).1 answer hi with
    | done hsorts => exact hsorts.perm
    | _ => cases hpoint
  rw [List.nodup_iff_count_eq_one]
  simp only [hperm.count_eq]

/-- The only address is listed twice; the first connection stands, the second one fails. -/
def repeated : List (Input Unit) :=
  [{ now := 0, answer := some [.v4 1,.v4 1] },{ now := 0 },{ now := 0 },
    { now := 0, outcome := some () }] ++ List.replicate 5 { now := 0 }

theorem repeated_run : ∃ c, run step (start ⟨.empty,.empty⟩) repeated = some c ∧ c.point = none ∧
    c.lists.ready.ips ++ keys DelayedAddress.address c.lists.broken.addresses = [.v4 1,.v4 1] := by
  have h : (run step (start ⟨.empty,.empty⟩) repeated).map (fun c => (c.point.isNone,
      c.lists.ready.ips ++ keys DelayedAddress.address c.lists.broken.addresses)) =
      some (true,[.v4 1,.v4 1]) := by decide
  obtain ⟨c,hc,heq⟩ := Option.map_eq_some_iff.mp h
  exact ⟨c,hc,Option.isNone_iff_eq_none.mp (congrArg Prod.fst heq),congrArg Prod.snd heq⟩

/-- It is ready and broken at the same time. -/
theorem once_fails : ∃ (s : Lists Unit) (i : Input Unit) (is : List (Input Unit)) (c : Check Unit)
    (answer : List IpAddr),
    (s.ready.ips ++ keys DelayedAddress.address s.broken.addresses).Nodup ∧
      run step (start s) (i::is) = some c ∧ c.point = none ∧ i.answer = some answer ∧
      ∃ a ∈ answer,
        (c.lists.ready.ips ++ keys DelayedAddress.address c.lists.broken.addresses).count a ≠ 1 := by
  obtain ⟨c,hc,hpoint,hips⟩ := repeated_run
  refine ⟨⟨.empty,.empty⟩,_,_,c,[.v4 1,.v4 1],List.nodup_nil,hc,hpoint,rfl,.v4 1,by decide,?_⟩
  rw [hips]
  decide

/-- One address is ready, one is broken, a third one refuses and a fourth one connects. -/
def distinct : List (Input Unit) :=
  { now := 5, answer := some [.v4 1,.v4 2,.v4 3,.v4 4] }::List.replicate 8 { now := 7 } ++
    [{ now := 8, outcome := some () },{ now := 8 },{ now := 8 }]

/-- Listed once, each has one entry. -/
theorem once_mixed : ∃ c, run step (start mixed) distinct = some c ∧
    c.lists.ready.ips = [.v4 1,.v4 4] ∧
      keys DelayedAddress.address c.lists.broken.addresses = [.v4 2,.v4 3] ∧
      ∀ a ∈ [IpAddr.v4 1,.v4 2,.v4 3,.v4 4],
        (c.lists.ready.ips ++ keys DelayedAddress.address c.lists.broken.addresses).count a = 1 := by
  have h : (run step (start mixed) distinct).map (fun c => (c.point.isNone,c.lists.ready.ips,
      keys DelayedAddress.address c.lists.broken.addresses)) =
      some (true,[.v4 1,.v4 4],[.v4 2,.v4 3]) := by decide
  obtain ⟨c,hc,heq⟩ := Option.map_eq_some_iff.mp h
  obtain ⟨hpoint,hlists⟩ := Prod.mk.inj heq
  obtain ⟨hready,hbroken⟩ := Prod.mk.inj hlists
  exact ⟨c,hc,hready,hbroken,
    (once_iff hc (Option.isNone_iff_eq_none.mp hpoint) rfl).mpr (by decide)⟩

end Reconcile
end SodaPool
