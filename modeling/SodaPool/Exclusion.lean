import SodaPool.Uniqueness

/-!
# An address is ready or broken, not both

The two lists have a lock each, so an address moves between them in two steps. While it
is in both, some `check_dns` has to be about to replace the heap by one without it. What
breaks this is a write that puts an address into one list while it stays in the other.
-/

namespace SodaPool
namespace Exclusion

open Containers Transition Uniqueness

variable {π Channel : Type}

/-- An address that is ready and broken at the same time. -/
def InBoth (s : Lists Channel) (a : IpAddr) : Prop := a ∈ s.readyIps ∧ a ∈ s.brokenIps

/-- A `check_dns` that has published its ready list is about to publish a heap without
the address. -/
def Leaving (p : Pool Channel) (a : IpAddr) : Prop :=
  ∃ id l, p.task id = .checkDns (.replaceBroken l) ∧ a ∉ keys DelayedAddress.address l.broken

/-- No address stays in both lists. -/
def Transient (p : Pool Channel) : Prop := ∀ a, InBoth p.lists a → Leaving p a

/-- What is written to one list is not in the other; only the new ready list may hold
addresses that are in the heap. -/
def WritesApart (s : Lists Channel) : Write Channel → Prop
  | .add ip _ => ip ∉ s.brokenIps
  | .insert entry => entry.address ∉ s.readyIps
  | .replaceBroken new => ∀ d ∈ new, d.address ∉ s.readyIps
  | _ => True

instance (s : Lists Channel) (w : Write Channel) : Decidable (WritesApart s w) :=
  match w with
  | .add ip _ => inferInstanceAs (Decidable (ip ∉ s.brokenIps))
  | .insert entry => inferInstanceAs (Decidable (entry.address ∉ s.readyIps))
  | .replaceBroken new => inferInstanceAs (Decidable (∀ d ∈ new, d.address ∉ s.readyIps))
  | .nothing | .replaceReady _ | .remove _ | .pop _ => isTrue trivial

/-- A `check_dns` that is dropped between its two replacements was not about to take an
address out of both lists. -/
def DropsApart (p : Pool Channel) (actor : Actor) : Prop :=
  ∀ id l, p.Drops actor id → p.task id = .checkDns (.replaceBroken l) →
    ∀ a, InBoth p.lists a → a ∈ keys DelayedAddress.address l.broken

structure Separated (p : Pool Channel) : Prop where
  orderly : p.Orderly
  distinct : ChecksDistinct p
  transient : Transient p

theorem Leaving.move {p p' : Pool Channel} {actor : Actor} {i : Input Channel} {a : IpAddr}
    (hl : Leaving p a) (ho : p.Orderly) (hm : p.Move actor i p') (hb : InBoth p.lists a)
    (hd : DropsApart p actor) (hw : ∀ new, p.write actor i ≠ .replaceBroken new) :
    Leaving p' a := by
  obtain ⟨id,l,ht,ha⟩ := hl
  have hactor : actor ≠ .task id := by
    rintro rfl
    exact hw l.broken (by simp [Pool.write,ht,Task.write])
  have hdrop : ¬ p.Drops actor id := fun h => ha (hd id l h ht a hb)
  have hkeep := hm.task_of_ne ho (by simp [ht,Task.Settled]) hactor hdrop
  exact ⟨id,l,hkeep.trans ht,ha⟩

/-- The list that `check_dns` publishes first and the heap that it publishes next have no
address in common. -/
theorem leaving_of_replaceReady {p p' : Pool Channel} {actor : Actor} {i : Input Channel}
    {new : List (IpAddr × Channel)} {a : IpAddr} (hm : p.Move actor i p') (hp : ChecksDistinct p)
    (hw : p.write actor i = .replaceReady new) (ha : a ∈ keys Prod.fst new) : Leaving p' a := by
  obtain ⟨id,l,rfl,ht,rfl⟩ := Pool.write_eq_replaceReady hw
  have hnext := (hm.checkDns_next ht rfl).2
  have hnodup : l.filed.Nodup := hp id _ ht
  refine ⟨id,l,hnext,fun hb => ?_⟩
  exact (List.nodup_append.mp hnodup).2.2 a ha a hb rfl

theorem Separated.transient_move {p p' : Pool Channel} {actor : Actor} {i : Input Channel}
    (hp : Separated p) (hwrite : WritesApart p.lists (p.write actor i))
    (hdrop : DropsApart p actor) (hm : p.Move actor i p') : Transient p' := by
  intro a hboth
  obtain ⟨hready,hbroken⟩ := hboth
  have hold (hr : a ∈ p.lists.readyIps) (hb : a ∈ p.lists.brokenIps)
      (hw : ∀ new, p.write actor i ≠ .replaceBroken new) : Leaving p' a :=
    (hp.transient a ⟨hr,hb⟩).move hp.orderly hm ⟨hr,hb⟩ hdrop hw
  rw [Lists.readyIps,ReadyChannels.ips,hm.lists.1] at hready
  rw [Lists.brokenIps,hm.lists.2] at hbroken
  cases hw : p.write actor i with
  | nothing =>
    rw [hw] at hready hbroken
    exact hold hready hbroken (by simp [hw])
  | replaceReady new =>
    rw [hw] at hready
    exact leaving_of_replaceReady hm hp.distinct hw hready
  | replaceBroken new =>
    rw [hw] at hready hbroken hwrite
    obtain ⟨d,hd,rfl⟩ := List.mem_map.mp hbroken
    exact absurd hready (hwrite d hd)
  | add ip channel =>
    rw [hw] at hready hbroken hwrite
    have hne : a ≠ ip := by
      rintro rfl
      exact hwrite hbroken
    have hr : a ∈ p.lists.readyIps := by
      simpa [Write.ready,keys,hne] using hready
    exact hold hr hbroken (by simp [hw])
  | insert entry =>
    rw [hw] at hready hbroken hwrite
    have hne : a ≠ entry.address := by
      rintro rfl
      exact hwrite hready
    have hb : a ∈ p.lists.brokenIps :=
      ((mem_keys_putLast DelayedAddress.address).mp hbroken).resolve_right hne
    exact hold hready hb (by simp [hw])
  | remove ip =>
    rw [hw] at hready hbroken
    exact hold (keys_removeFirst_subset Prod.fst ip _ hready) hbroken (by simp [hw])
  | pop entry =>
    rw [hw] at hready hbroken
    exact hold hready (List.map_subset _ List.erase_subset hbroken) (by simp [hw])

/-- Nothing in flight can be about to replace the heap. -/
theorem Transient.not_inBoth {p : Pool Channel} (hp : Transient p) (hq : p.Quiescent) (a : IpAddr) :
    ¬ InBoth p.lists a := by
  intro h
  obtain ⟨id,l,ht,-⟩ := hp a h
  have hb := hq.1 id
  rw [ht] at hb
  cases id <;> exact hb

theorem separated_init : (World.init : World π Channel).Every Separated := fun q =>
  ⟨Pool.orderly_init,checksDistinct_init q,fun _ h => absurd h.1 List.not_mem_nil⟩

variable [DecidableEq π]

/-- A step that leaves no address in both lists for good. -/
def KeepsApart (w : World π Channel) (l : Label π Channel) : Prop :=
  WritesApart (w.pool l.pool).lists (w.write l) ∧ DropsApart (w.pool l.pool) l.actor

theorem separated_step {w w' : World π Channel} {l : Label π Channel}
    (hw : w.Every Separated) (hl : DistinctAnswer l ∧ KeepsApart w l) (h : w.step l = some w') :
    w'.Every Separated := by
  apply World.every_step h hw
  intro hm
  have hp := hw l.pool
  exact ⟨hm.orderly hp.orderly,checksDistinct_move hp.distinct hl.1 hm,
    hp.transient_move hl.2.1 hl.2.2 hm⟩

/-- In a run that keeps the lists apart, no quiescent state has an address in both. -/
theorem not_inBoth_of_run {ls : List (Label π Channel)} {u : World π Channel}
    (hd : ∀ l ∈ ls, DistinctAnswer l) (hr : run World.step World.init ls = some u)
    (ha : Along World.step KeepsApart World.init ls) (q : π) (hq : (u.pool q).Quiescent)
    (a : IpAddr) : ¬ InBoth (u.pool q).lists a := by
  have hall := (along_of_forall (fun _ => hd) World.init).and ha
  have hu := run_invariant (fun _ _ _ => separated_step) separated_init hall hr
  exact (hu q).transient.not_inBoth hq a

theorem keepsApart_served : Along World.step KeepsApart World.init served := by
  have hwrites : Along World.step (fun w l => WritesApart (w.pool l.pool).lists (w.write l))
      World.init served := by decide
  have hdrops : Along World.step (fun w l => DropsApart (w.pool l.pool) l.actor)
      World.init served := by
    apply along_served
    · intro w l hnot id lc hdrop
      exact absurd hdrop.dropping hnot
    · intro w hw id lc hdrop ht
      obtain ⟨number,rfl⟩ := drops_completion hdrop
      exact absurd ht (rechecked_future hw number _)
  exact hwrites.and hdrops

/-- At the end one address is ready, and the other one is broken. -/
theorem not_inBoth_served : ∃ u : World Unit Unit,
    run World.step World.init served = some u ∧ (u.pool ()).lists.readyIps = [.v4 1] ∧
      (u.pool ()).lists.brokenIps = [.v4 2] ∧ ∀ a, ¬ InBoth (u.pool ()).lists a := by
  obtain ⟨u,hu,hready,hbroken⟩ := served_run
  exact ⟨u,hu,hready,hbroken,
    not_inBoth_of_run (by decide) hu keepsApart_served () (served_quiescent hu)⟩

/-- A forced recheck of an address that accepts the connection this time. -/
def forced : List (Label Unit Unit) :=
  refused ++ List.replicate 9 (.quiet () (.get 0) 1000000000) ++
    [.connected () (.future 0 1) 1000000000 (),.quiet () (.task (.future 0 1)) 1000000000,
      .quiet () (.task (.future 0 1)) 1000000000,.quiet () (.get 0) 1000000000]

theorem forced_quiescent {w : World Unit Unit} (h : run World.step World.init forced = some w) :
    w.Every Pool.Quiescent := by
  cases h
  intro q
  constructor
  · intro id
    match id with
    | .future 0 0 | .future 0 1 => trivial
    | .future 0 (n+2) => trivial
    | .future (call+1) n => trivial
    | .dns | .doctor | .report _ _ => trivial
  · intro call
    cases call <;> trivial

/-- The recheck had only copied the entry out of the heap, where it still is. -/
theorem inBoth_reached : ∃ (ls : List (Label Unit Unit)) (u : World Unit Unit),
    (∀ l ∈ ls, DistinctAnswer l) ∧ run World.step World.init ls = some u ∧
      u.Every Pool.Quiescent ∧ InBoth (u.pool ()).lists (.v4 1) := by
  have h : (run World.step World.init forced).map
      (fun u => ((u.pool ()).lists.readyIps,(u.pool ()).lists.brokenIps)) =
        some ([.v4 1],[.v4 1]) := by decide
  obtain ⟨u,hu,hlists⟩ := Option.map_eq_some_iff.mp h
  obtain ⟨hready,hbroken⟩ := Prod.mk.inj hlists
  refine ⟨forced,u,by decide,hu,forced_quiescent hu,?_,?_⟩
  · rw [hready]
    exact List.mem_singleton_self _
  · rw [hbroken]
    exact List.mem_singleton_self _

end Exclusion
end SodaPool
