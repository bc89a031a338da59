import SodaPool.Reconcile

/-!
# DNS checks that find nothing new

The domain is looked up every few seconds, and mostly the answer has the same addresses in some
order. After the first check the others connect to nobody and leave both lists as they are.
-/

namespace SodaPool
namespace Stability

open Containers Transition Reconcile

variable {Channel : Type}

/-- Complete checks, one after the other: what the resolver said to each, and all their attempts
to connect. -/
inductive Checks (s : Lists Channel) : List (Option (List IpAddr)) →
    List (IpAddr × Option Channel) → Lists Channel → Prop
  | none : Checks s [] [] s
  | next {answers : List (Option (List IpAddr))} {attempts : List (IpAddr × Option Channel)}
      {s' : Lists Channel} {i : Input Channel} {is : List (Input Channel)} {c : Check Channel} :
      Checks s answers attempts s' → run step (start s') (i::is) = some c → c.point = none →
      Checks s (answers ++ [i.answer]) (attempts ++ c.attempts) c.lists

/-- The lists file the addresses of the answer, each once. -/
structure Settled (answer : List IpAddr) (s : Lists Channel) : Prop where
  perm : (s.ready.ips ++ keys DelayedAddress.address s.broken.addresses).Perm answer
  nodup : answer.Nodup

/-- The same entries, in some order. -/
structure Same (s s' : Lists Channel) : Prop where
  ready : s'.ready.channels.Perm s.ready.channels
  broken : s'.broken.addresses.Perm s.broken.addresses

section Settled

variable {s : Lists Channel} {answer : List IpAddr} {ready : List (IpAddr × Channel)}
  {broken : List DelayedAddress} {attempts : List (IpAddr × Option Channel)}

theorem Settled.mem_iff (h : Settled answer s) (a : IpAddr) :
    a ∈ answer ↔ a ∈ s.ready.ips ∨ a ∈ keys DelayedAddress.address s.broken.addresses := by
  rw [← List.mem_append]
  exact h.perm.mem_iff.symm

theorem Settled.parts (h : Settled answer s) : s.ready.ips.Nodup ∧
    Unique DelayedAddress.address s.broken.addresses ∧
    ∀ a ∈ s.ready.ips, a ∉ keys DelayedAddress.address s.broken.addresses := by
  obtain ⟨hready,hbroken,hdisjoint⟩ := List.nodup_append.mp (h.perm.nodup_iff.mpr h.nodup)
  exact ⟨hready,hbroken,fun a ha hb => hdisjoint a ha a hb rfl⟩

theorem Settled.of_perm {other : List IpAddr} (h : Settled answer s) (hperm : other.Perm answer) :
    Settled other s :=
  ⟨h.perm.trans hperm.symm,hperm.nodup_iff.mpr h.nodup⟩

/-- Nobody is connected to who is filed already. -/
theorem attempts_eq_nil (h : Sorts s answer ready broken attempts)
    (hfiled : ∀ a ∈ answer, a ∈ s.ready.ips ∨ a ∈ keys DelayedAddress.address s.broken.addresses) :
    attempts = [] := by
  have hunfiled {a : IpAddr} (hf : s.ready.find a = none)
      (hg : a ∉ keys DelayedAddress.address s.broken.addresses) :
      ¬ (a ∈ s.ready.ips ∨ a ∈ keys DelayedAddress.address s.broken.addresses) := by
    rw [not_or]
    exact ⟨ReadyChannels.find_eq_none.mp hf,hg⟩
  induction h with
  | nil => rfl
  | ready _ _ ih | broken _ _ _ _ ih => exact ih (fun a ha => hfiled a (List.mem_append_left _ ha))
  | connected _ hf hg | refused _ _ hf hg =>
    exact absurd (hfiled _ (List.mem_append_right _ List.mem_cons_self)) (hunfiled hf hg)

theorem Settled.find_iff (h : Settled answer s) {a : IpAddr} {channel : Channel} :
    s.ready.find a = some channel ↔ (a,channel) ∈ s.ready.channels := by
  refine ⟨ReadyChannels.find_mem,fun hmem => ReadyChannels.find_eq_some hmem (fun c hc => ?_)⟩
  have heq := List.inj_on_of_nodup_map h.parts.1 hc hmem rfl
  exact congrArg Prod.snd heq

theorem Settled.sorts (h : Settled answer s) (hsorts : Sorts s answer ready broken attempts) :
    attempts = [] ∧ ready.Perm s.ready.channels ∧ broken.Perm s.broken.addresses := by
  have hnone : attempts = [] := attempts_eq_nil hsorts (fun a => (h.mem_iff a).mp)
  subst hnone
  obtain ⟨hready,hunique,hdisjoint⟩ := h.parts
  obtain ⟨hready',hbroken',-⟩ := List.nodup_append.mp (hsorts.perm.nodup_iff.mpr h.nodup)
  refine ⟨rfl,?_,?_⟩
  · apply (List.perm_ext_iff_of_nodup (.of_map _ hready') (.of_map _ hready)).mpr
    rintro ⟨a,channel⟩
    rw [hsorts.mem_ready,h.find_iff]
    constructor
    · rintro (⟨-,hmem⟩ | hmem)
      · exact hmem
      · cases hmem
    · intro hmem
      exact .inl ⟨(h.mem_iff a).mpr (.inl (List.mem_map_of_mem (f := Prod.fst) hmem)),hmem⟩
  · apply (List.perm_ext_iff_of_nodup (.of_map _ hbroken') (.of_map _ hunique)).mpr
    intro d
    constructor
    · intro hd
      rcases (hsorts.mem_broken hd).2 with hold | ⟨hmem,-⟩
      · exact hold
      · cases hmem
    · intro hd
      have hkey : d.address ∈ keys DelayedAddress.address s.broken.addresses := List.mem_map_of_mem hd
      have hfind : s.ready.find d.address = none :=
        ReadyChannels.find_eq_none.mpr (fun ha => hdisjoint _ ha hkey)
      have hkept := hsorts.entry_kept hunique hd ((h.mem_iff d.address).mpr (.inr hkey)) hfind
      exact (BrokenEndpoints.getAddress_mem (hkept.2.1 0)).1

end Settled

/-- The end of a check with an answer. -/
theorem sorts_of_run {s : Lists Channel} {i : Input Channel} {is : List (Input Channel)}
    {c : Check Channel} {answer : List IpAddr} (hr : run step (start s) (i::is) = some c)
    (hpoint : c.point = none) (hi : i.answer = some answer) :
    Sorts s answer c.lists.ready.channels c.lists.broken.addresses c.attempts := by
  cases (sorting_of_run hr).1 answer hi with
  | done hsorts => exact hsorts
  | _ => cases hpoint

theorem settled_of_checks {answer : List IpAddr} {s s' : Lists Channel}
    {answers : List (Option (List IpAddr))} {attempts : List (IpAddr × Option Channel)}
    (hs : Settled answer s) (h : Checks s answers attempts s')
    (hanswers : ∀ l, some l ∈ answers → l.Perm answer) :
    Settled answer s' ∧ attempts = [] ∧ Same s s' := by
  induction h with
  | none => exact ⟨hs,rfl,.refl _,.refl _⟩
  | @next answers attempts s' i is c _ hr hpoint ih =>
    obtain ⟨hsettled,rfl,hsame⟩ := ih (fun l hl => hanswers l (List.mem_append_left _ hl))
    cases hi : i.answer with
    | none =>
      have hc := (sorting_of_run hr).2 hi
      subst hc
      exact ⟨hsettled,rfl,hsame⟩
    | some answer' =>
      have hperm : answer'.Perm answer :=
        hanswers _ (List.mem_append_right _ (hi ▸ List.mem_cons_self))
      have hsorts := sorts_of_run hr hpoint hi
      obtain ⟨hattempts,hready,hbroken⟩ := (hsettled.of_perm hperm).sorts hsorts
      rw [hattempts]
      exact ⟨⟨hsorts.perm.trans hperm,hs.nodup⟩,rfl,hready.trans hsame.ready,
        hbroken.trans hsame.broken⟩

/-- From any lists, after one check with an answer that lists each address once, any number of
checks make no attempt to connect, and leave both lists with the same channels and the same
entries, as long as the answers have the same addresses or there is none. -/
theorem stable_of_checks {s s' : Lists Channel} {i : Input Channel} {is : List (Input Channel)}
    {c : Check Channel} {answer : List IpAddr} {answers : List (Option (List IpAddr))}
    {attempts : List (IpAddr × Option Channel)} (hnodup : answer.Nodup)
    (hr : run step (start s) (i::is) = some c) (hpoint : c.point = none) (hi : i.answer = some answer)
    (h : Checks c.lists answers attempts s') (hanswers : ∀ l, some l ∈ answers → l.Perm answer) :
    attempts = [] ∧ Same c.lists s' :=
  (settled_of_checks ⟨(sorts_of_run hr hpoint hi).perm,hnodup⟩ h hanswers).2

/-- The first of two servers accepts, the second refuses. -/
def firstInputs : List (Input Unit) :=
  [{ now := 5, answer := some [.v4 1,.v4 2] },{ now := 5 },{ now := 5 },
    { now := 5, outcome := some () }] ++ List.replicate 5 { now := 6 }

/-- The answer has them in the other order. -/
def secondInputs : List (Input Unit) :=
  { now := 9, answer := some [.v4 2,.v4 1] }::List.replicate 5 { now := 9 }

theorem stable_swapped : ∃ c c' : Check Unit,
    run step (start ⟨ReadyChannels.empty,BrokenEndpoints.empty⟩) firstInputs = some c ∧
      run step (start c.lists) secondInputs = some c' ∧ c'.attempts = [] ∧ Same c.lists c'.lists := by
  obtain ⟨c,c',hr,hpoint,hr',hpoint'⟩ : ∃ c c' : Check Unit,
      run step (start ⟨ReadyChannels.empty,BrokenEndpoints.empty⟩) firstInputs = some c ∧
        c.point = none ∧ run step (start c.lists) secondInputs = some c' ∧ c'.point = none :=
    ⟨_,_,rfl,rfl,rfl,rfl⟩
  have hchecks : Checks c.lists ([] ++ [some [.v4 2,.v4 1]]) ([] ++ c'.attempts) c'.lists :=
    .next .none hr' hpoint'
  obtain ⟨hattempts,hsame⟩ := stable_of_checks (by decide) hr hpoint rfl hchecks (by
    intro l hl
    obtain rfl : l = [.v4 2,.v4 1] := by simpa using hl
    exact .swap ..)
  exact ⟨c,c',hr,hr',hattempts,hsame⟩

end Stability
end SodaPool
