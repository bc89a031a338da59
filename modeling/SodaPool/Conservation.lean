import SodaPool.Uniqueness

/-!
# No address is lost

An address of the domain is ready, broken or in the hands of a task that is going to
write it to one of the lists. Two writes can take the last trace of it away: a `check_dns`
that replaces the heap after someone else has replaced its ready list, and the drop of a
`check_dns` between its two replacements.
-/

namespace SodaPool
namespace Conservation

open Containers Transition

variable {π Channel : Type}

/-- What a `check_dns` has yet to publish. -/
def outstanding : CheckDns Channel → List IpAddr
  | .replaceBroken l => keys DelayedAddress.address l.broken
  | c => c.addresses

/-- A task that is going to write the address to one of the lists. -/
def Holds (a : IpAddr) : Task Channel → Prop
  | .checkDns c => a ∈ outstanding c
  | .recheck (.connect d) => d.address = a
  | .recheck (.add ip _) => ip = a
  | .recheck (.insert d) => d.address = a
  | .report (.insert d) => d.address = a
  | _ => False

def Listed (s : Lists Channel) (a : IpAddr) : Prop := a ∈ s.readyIps ∨ a ∈ s.brokenIps

def Secured (p : Pool Channel) (a : IpAddr) : Prop :=
  Listed p.lists a ∨ ∃ id, Holds a (p.task id)

/-- A `check_dns` under way has the address in hand. -/
def Carried (p : Pool Channel) (a : IpAddr) : Prop :=
  ∀ id c, p.task id = .checkDns c → c ≠ .resolve → a ∈ c.addresses

/-- The heap is replaced by one without the address only while it is ready or in the hands
of another task. -/
def ReplacesKept (p : Pool Channel) (actor : Actor) (i : Input Channel) (a : IpAddr) : Prop :=
  ∀ new, p.write actor i = .replaceBroken new → a ∉ keys DelayedAddress.address new →
    a ∈ p.lists.readyIps ∨ ∃ id, actor ≠ .task id ∧ Holds a (p.task id)

/-- The tasks that are dropped do not have the address alone. -/
def DropsKept (p : Pool Channel) (actor : Actor) (a : IpAddr) : Prop :=
  (∃ id, p.Drops actor id ∧ Holds a (p.task id)) →
    Listed p.lists a ∨ ∃ id, ¬ p.Drops actor id ∧ Holds a (p.task id)

theorem not_settled_of_holds {a : IpAddr} {t : Task Channel} (h : Holds a t) : ¬ t.Settled := by
  cases t <;> simp_all [Holds,Task.Settled]

theorem not_holds_of_between {a : IpAddr} {id : TaskId} {t : Task Channel} (h : t.Between id) :
    ¬ Holds a t := by
  intro hh
  cases id <;> cases t <;> simp only [Task.Between,Task.Settled,Holds] at h hh
  case dns.checkDns c => cases c <;> simp_all [outstanding,CheckDns.addresses]
  case report.report r => cases r <;> simp_all

theorem Secured.listed {p : Pool Channel} {a : IpAddr} (h : Secured p a) (hq : p.Quiescent) :
    Listed p.lists a := by
  rcases h with h | ⟨id,hid⟩
  · exact h
  · exact absurd hid (not_holds_of_between (hq.1 id))

theorem outstanding_eq_addresses {c : CheckDns Channel} (h : ∀ l, c ≠ .replaceBroken l) :
    outstanding c = c.addresses := by
  cases c with
  | replaceBroken l => exact absurd rfl (h l)
  | _ => rfl

/-- Up to its replacements a `check_dns` keeps in hand what it has. -/
theorem outstanding_step {c : CheckDns Channel} {a : IpAddr} (ha : a ∈ outstanding c)
    (hr : ∀ l, c ≠ .replaceReady l) (hb : ∀ l, c ≠ .replaceBroken l) (s : Lists Channel)
    (i : Input Channel) : ∃ c', (c.step s i).2 = some c' ∧ a ∈ outstanding c' := by
  have hres : c ≠ .resolve := by
    rintro rfl
    exact absurd ha List.not_mem_nil
  obtain ⟨c',hc'⟩ := CheckDns.exists_step hres hb s i
  have hb' : ∀ l, c' ≠ .replaceBroken l := by
    rintro l rfl
    exact hr l (CheckDns.eq_replaceReady_of_step hc')
  have hperm := ((CheckDns.step_addresses hc').resolve_left (fun h => hres h.1)).2
  rw [outstanding_eq_addresses hb] at ha
  refine ⟨c',hc',?_⟩
  rw [outstanding_eq_addresses hb']
  exact hperm.mem_iff.mpr ha

/-- The step of a task that has the address in hand lists it or keeps it in hand. -/
theorem holds_step {id : TaskId} {s : Lists Channel} {i : Input Channel} {t : Task Channel}
    {r : Lists Channel × Task Channel} {a : IpAddr} (ha : Holds a t)
    (hr : ∀ l, t ≠ .checkDns (.replaceReady l)) (hb : ∀ l, t ≠ .checkDns (.replaceBroken l))
    (h : t.step id s i = some r) : Listed r.1 a ∨ Holds a r.2 := by
  have hinsert {d : DelayedAddress} (hd : d.address = a) :
      Listed { s with broken := s.broken.insert d } a := by
    subst hd
    exact .inr (mem_keys_putLast_self DelayedAddress.address d s.broken.addresses)
  have hlook {c : CheckDns Channel} (ht : t = .checkDns c) :
      ∃ c', (c.step s i).2 = some c' ∧ a ∈ outstanding c' := by
    subst ht
    exact outstanding_step ha (fun l hl => hr l (congrArg _ hl)) (fun l hl => hb l (congrArg _ hl)) s i
  obtain ⟨s',t'⟩ := r
  cases Task.taskStep_of_step h with
  | checkDns hgoes =>
    obtain ⟨c',hc',ha'⟩ := hlook rfl
    rw [hgoes.step_eq] at hc'
    cases hc'
    exact .inr ha'
  | checkDnsEnds hgoes =>
    obtain ⟨c',hc',-⟩ := hlook rfl
    rw [hgoes.step_eq] at hc'
    cases hc'
  | connected | refused => exact .inr ha
  | @add ip channel =>
    have hadd : a ∈ keys Prod.fst (s.ready.channels ++ [(ip,channel)]) := by
      simp [show ip = a from ha]
    exact .inl (.inl hadd)
  | reAdd | insert => exact .inl (hinsert ha)
  | remove | taken | waits => exact ha.elim

/-- A task that takes the address out of a list, other than by a replacement, takes it in
hand. -/
theorem listed_step {id : TaskId} {s : Lists Channel} {i : Input Channel} {t : Task Channel}
    {r : Lists Channel × Task Channel} {a : IpAddr} (ha : Listed s a)
    (hr : ∀ new, t.write s i ≠ .replaceReady new) (hb : ∀ new, t.write s i ≠ .replaceBroken new)
    (h : t.step id s i = some r) : Listed r.1 a ∨ Holds a r.2 := by
  have hlists := Task.step_lists h
  rw [Listed,Lists.readyIps,ReadyChannels.ips,Lists.brokenIps,hlists.1,hlists.2]
  cases hw : t.write s i with
  | nothing => exact .inl ha
  | replaceReady new => exact absurd hw (hr new)
  | replaceBroken new => exact absurd hw (hb new)
  | add ip channel =>
    left
    apply ha.imp_left
    intro hready
    simp [Write.ready,keys] at hready ⊢
    exact .inl hready
  | insert entry =>
    left
    apply ha.imp_right
    intro hbroken
    exact (mem_keys_putLast _).mpr (.inl hbroken)
  | remove ip =>
    by_cases hne : a = ip
    · subst hne
      have ht := Task.write_eq_remove hw
      subst ht
      simp only [Task.step,Report.step,Option.map_some,Option.getD_some,Option.some.injEq] at h
      subst h
      exact .inr rfl
    · left
      apply ha.imp_left
      intro hready
      exact mem_keys_removeFirst_of_ne Prod.fst hready hne
  | pop entry =>
    by_cases hne : a = entry.address
    · subst hne
      obtain ⟨rfl,rest,hround⟩ := Task.write_eq_pop hw
      simp only [Task.step,NextBroken.step,hround,Option.map_some,Option.some.injEq] at h
      subst h
      exact .inr rfl
    · left
      apply ha.imp_right
      intro hbroken
      obtain ⟨d,hd,rfl⟩ := List.mem_map.mp hbroken
      have hd' : d ≠ entry := by
        rintro rfl
        exact hne rfl
      exact List.mem_map.mpr ⟨d,(List.mem_erase_of_ne hd').mpr hd,rfl⟩

theorem Secured.of_task {p : Pool Channel} {a : IpAddr} (id : TaskId)
    (h : Listed p.lists a ∨ Holds a (p.task id)) : Secured p a :=
  h.imp_right (fun hid => ⟨id,hid⟩)

/-- What a `check_dns` publishes first it has published; the rest it still has in hand. -/
theorem secured_of_replaceReady {p p' : Pool Channel} {actor : Actor} {i : Input Channel}
    {new : List (IpAddr × Channel)} {a : IpAddr} (hm : p.Move actor i p') (hc : Carried p a)
    (hw : p.write actor i = .replaceReady new) : Secured p' a := by
  obtain ⟨id,l,rfl,ht,rfl⟩ := Pool.write_eq_replaceReady hw
  obtain ⟨hlists,hnext⟩ := hm.checkDns_next ht rfl
  have hfiled : a ∈ l.filed := hc id _ ht (by simp)
  apply Secured.of_task id
  rw [hlists,hnext]
  rcases List.mem_append.mp hfiled with hready | hbroken
  · exact .inl (.inl hready)
  · exact .inr hbroken

/-- The last step of a `check_dns`. -/
theorem secured_of_replaceBroken {p p' : Pool Channel} {actor : Actor} {i : Input Channel}
    {new : List DelayedAddress} {a : IpAddr} (hm : p.Move actor i p') (ho : p.Orderly)
    (hk : ReplacesKept p actor i a) (hw : p.write actor i = .replaceBroken new) :
    Secured p' a := by
  have hlists := hm.lists
  rw [hw] at hlists
  by_cases ha : a ∈ keys DelayedAddress.address new
  · left
    right
    rw [Lists.brokenIps,hlists.2]
    exact ha
  · rcases hk new hw ha with hready | ⟨id,hne,hid⟩
    · left
      left
      rw [Lists.readyIps,ReadyChannels.ips,hlists.1]
      exact hready
    · obtain ⟨id',l,rfl,ht,-⟩ := Pool.write_eq_replaceBroken hw
      have hdrop : ¬ p.Drops (.task id') id := by
        intro hd
        cases id' <;> cases id <;> simp only [Pool.Drops] at hd
        rw [hd.1.1] at ht
        cases ht
      have hsame := hm.task_of_ne ho (not_settled_of_holds hid) hne hdrop
      right
      exact ⟨id,hsame ▸ hid⟩

/-- A move without a replacement loses nothing that is listed. -/
theorem secured_of_listed {p p' : Pool Channel} {actor : Actor} {i : Input Channel} {a : IpAddr}
    (ha : Listed p.lists a) (hm : p.Move actor i p')
    (hr : ∀ new, p.write actor i ≠ .replaceReady new)
    (hb : ∀ new, p.write actor i ≠ .replaceBroken new) : Secured p' a := by
  by_cases hw : p.write actor i = .nothing
  · have hlists := hm.lists
    rw [hw] at hlists
    left
    rw [Listed,Lists.readyIps,ReadyChannels.ips,Lists.brokenIps,hlists.1,hlists.2]
    exact ha
  · cases actor with
    | task id =>
      have hget : p.task id ≠ .getAny := fun hg => hw (by simp [Pool.write,hg,Task.write])
      exact Secured.of_task id (listed_step ha hr hb (hm.task_self hget))
    | get call => exact absurd rfl hw
    | cancel call => exact absurd rfl hw

/-- A move without a replacement loses nothing that a task keeps in hand. -/
theorem secured_of_holds {p p' : Pool Channel} {actor : Actor} {i : Input Channel} {a : IpAddr}
    {id : TaskId} (hid : Holds a (p.task id)) (hm : p.Move actor i p') (ho : p.Orderly)
    (hr : ∀ new, p.write actor i ≠ .replaceReady new)
    (hb : ∀ new, p.write actor i ≠ .replaceBroken new) (hd : ¬ p.Drops actor id) :
    Secured p' a := by
  by_cases hactor : actor = .task id
  · subst hactor
    have hget : p.task id ≠ .getAny := fun hg => by simp [hg,Holds] at hid
    have hr' (l : Locals Channel) : p.task id ≠ .checkDns (.replaceReady l) := fun ht =>
      hr l.ready (by simp [Pool.write,ht,Task.write])
    have hb' (l : Locals Channel) : p.task id ≠ .checkDns (.replaceBroken l) := fun ht =>
      hb l.broken (by simp [Pool.write,ht,Task.write])
    exact Secured.of_task id (holds_step hid hr' hb' (hm.task_self hget))
  · have hsame := hm.task_of_ne ho (not_settled_of_holds hid) hactor hd
    right
    exact ⟨id,hsame ▸ hid⟩

theorem Secured.move {p p' : Pool Channel} {actor : Actor} {i : Input Channel} {a : IpAddr}
    (hs : Secured p a) (hm : p.Move actor i p') (ho : p.Orderly) (hc : Carried p a)
    (hk : ReplacesKept p actor i a) (hd : DropsKept p actor a) : Secured p' a := by
  by_cases hready : ∃ new, p.write actor i = .replaceReady new
  · obtain ⟨new,hw⟩ := hready
    exact secured_of_replaceReady hm hc hw
  by_cases hbroken : ∃ new, p.write actor i = .replaceBroken new
  · obtain ⟨new,hw⟩ := hbroken
    exact secured_of_replaceBroken hm ho hk hw
  have hr (new : List (IpAddr × Channel)) : p.write actor i ≠ .replaceReady new :=
    fun hw => hready ⟨new,hw⟩
  have hb (new : List DelayedAddress) : p.write actor i ≠ .replaceBroken new :=
    fun hw => hbroken ⟨new,hw⟩
  rcases hs with hlisted | ⟨id,hid⟩
  · exact secured_of_listed hlisted hm hr hb
  · by_cases hdrop : p.Drops actor id
    · rcases hd ⟨id,hdrop,hid⟩ with hlisted | ⟨id',hdrop',hid'⟩
      · exact secured_of_listed hlisted hm hr hb
      · exact secured_of_holds hid' hm ho hr hb hdrop'
    · exact secured_of_holds hid hm ho hr hb hdrop

theorem carried_init (a : IpAddr) : Carried (Pool.init : Pool Channel) a := by
  intro id c hc hres
  cases id <;> simp [Pool.init] at hc
  exact absurd hc.symm hres

theorem Carried.move {p p' : Pool Channel} {actor : Actor} {i : Input Channel} {a : IpAddr}
    (hc : Carried p a) (ha : ∀ answer ∈ i.answer, a ∈ answer) (hm : p.Move actor i p') :
    Carried p' a := by
  have hstep (c c' : CheckDns Channel) (hcc : c ≠ .resolve → a ∈ c.addresses)
      (hs : (c.step p.lists i).2 = some c') : c' ≠ .resolve → a ∈ c'.addresses := by
    intro _
    rcases CheckDns.step_addresses hs with ⟨-,hans⟩ | ⟨hne,hperm⟩
    · exact ha _ hans
    · exact hperm.mem_iff.mpr (hcc hne)
  exact hm.checkDns_rule (fun hne => absurd rfl hne) hstep hc

section Runs

variable [DecidableEq π] (q : π) (a : IpAddr)

/-- The domain of the pool resolves to the address, among others. -/
def Answered (l : Label π Channel) : Prop := l.pool = q → ∀ answer ∈ l.input.answer, a ∈ answer

instance (l : Label π Channel) : Decidable (Answered q a l) :=
  inferInstanceAs (Decidable (l.pool = q → ∀ answer ∈ l.input.answer, a ∈ answer))

/-- A step that does not take the last trace of the address away. -/
def Kept (w : World π Channel) (l : Label π Channel) : Prop :=
  l.pool = q → ReplacesKept (w.pool q) l.actor l.input a ∧ DropsKept (w.pool q) l.actor a

/-- The step with which a `check_dns` of the pool has run to completion. -/
def Completes (w : World π Channel) (l : Label π Channel) : Prop :=
  l.pool = q ∧ ∃ new, w.write l = .replaceBroken new

def Known (w : World π Channel) : Prop := (w.pool q).Orderly ∧ Carried (w.pool q) a

variable {q : π} {a : IpAddr}

theorem known_step {w w' : World π Channel} {l : Label π Channel} (hw : Known q a w)
    (ha : Answered q a l) (h : w.step l = some w') : Known q a w' := by
  apply World.pool_step (I := fun p => p.Orderly ∧ Carried p a) h hw
  intro hq hm
  exact ⟨hm.orderly hw.1,hw.2.move (ha hq) hm⟩

theorem secured_step {w w' : World π Channel} {l : Label π Channel}
    (hw : Known q a w ∧ Secured (w.pool q) a) (hl : Answered q a l ∧ Kept q a w l)
    (h : w.step l = some w') : Known q a w' ∧ Secured (w'.pool q) a := by
  refine ⟨known_step hw.1 hl.1 h,?_⟩
  apply World.pool_step (I := fun p => Secured p a) h hw.2
  intro hq hm
  obtain ⟨hreplace,hdrop⟩ := hl.2 hq
  exact hw.2.move hm hw.1.1 hw.1.2 hreplace hdrop

theorem secured_of_completes {w w' : World π Channel} {l : Label π Channel} (hw : Known q a w)
    (hl : Kept q a w l) (hc : Completes q w l) (h : w.step l = some w') :
    Secured (w'.pool q) a := by
  obtain ⟨rfl,new,hnew⟩ := hc
  exact secured_of_replaceBroken (World.step_move h).2.2.1 hw.1 (hl rfl).1 hnew

/-- Once a `check_dns` has run to completion, an address that every answer lists stays
secured, so that it is listed whenever nothing is in flight. -/
theorem listed_of_run {ls ms : List (Label π Channel)} {l : Label π Channel}
    {w u : World π Channel} (ha : ∀ m ∈ ls ++ l::ms, Answered q a m)
    (hw : run World.step World.init ls = some w) (hc : Completes q w l)
    (hu : run World.step w (l::ms) = some u)
    (hk : Along World.step (Kept q a) World.init (ls ++ l::ms))
    (hq : (u.pool q).Quiescent) : Listed (u.pool q).lists a := by
  have hinit : Known q a (World.init : World π Channel) := ⟨Pool.orderly_init,carried_init a⟩
  have hall := (along_append.mp ((along_of_forall (fun _ => ha) World.init).and hk))
  have hknown : Known q a w :=
    run_invariant (fun _ _ _ hi hp h => known_step hi hp.1 h) hinit hall.1 hw
  obtain ⟨v,hv,hrest⟩ := run_cons_eq_some.mp hu
  have hlater := hall.2 w hw
  have hsecured : Secured (v.pool q) a := secured_of_completes hknown hlater.1.2 hc hv
  have hlast := run_invariant (fun _ _ _ => secured_step)
    ⟨known_step hknown hlater.1.1 hv,hsecured⟩ (hlater.2 v hv) hrest
  exact hlast.2.listed hq

end Runs

/-- The heaps that are published have the address, or it is ready; when the futures are dropped
it is broken. -/
theorem kept_served : Along World.step (Kept () (.v4 1)) World.init Uniqueness.served := by
  have hreplaces : Along World.step (fun w l => ∀ new, w.write l = .replaceBroken new →
      IpAddr.v4 1 ∈ keys DelayedAddress.address new ∨ IpAddr.v4 1 ∈ (w.pool l.pool).lists.readyIps)
      World.init Uniqueness.served := by decide
  have hdrops : Along World.step (fun w l => DropsKept (w.pool ()) l.actor (.v4 1))
      World.init Uniqueness.served := by
    apply Uniqueness.along_served
    · rintro w l hnot ⟨id,hdrop,-⟩
      exact absurd hdrop.dropping hnot
    · intro w hw _
      have h : (run World.step World.init Uniqueness.rechecked).map
          (fun w => (w.pool ()).lists.brokenIps) = some [.v4 1,.v4 2] := by decide
      rw [hw,Option.map_some,Option.some.injEq] at h
      exact .inl (.inr (by rw [h]; exact List.mem_cons_self))
  refine (hreplaces.and hdrops).mono ?_
  rintro w l ⟨hr,hd⟩ -
  exact ⟨fun new hw ha => .inl ((hr new hw).resolve_left ha),hd⟩

/-- The first server is ready, reported, tested and ready again. -/
theorem listed_served : ∃ u : World Unit Unit,
    run World.step World.init Uniqueness.served = some u ∧ Listed (u.pool ()).lists (.v4 1) := by
  obtain ⟨u,hu,-⟩ := Uniqueness.served_run
  have hsplit : Uniqueness.served = Uniqueness.served.take 8 ++
      .quiet () (.task .dns) 0::Uniqueness.served.drop 9 := rfl
  rw [hsplit] at hu
  obtain ⟨w,hw,hlast⟩ := run_append.mp hu
  have hcompletes : Completes () w (.quiet () (.task .dns) 0) := by
    cases hw
    exact ⟨rfl,_,rfl⟩
  exact ⟨u,hu,listed_of_run (by decide) hw hcompletes hlast kept_served
    (Uniqueness.served_quiescent hu)⟩

/-- An address becomes ready and is handed out; its caller reports it before the
`check_dns` that made it ready gets to replace the heap. -/
def overtaken : List (Label Unit Unit) :=
  [.answered () .dns 0 [.v4 1],.quiet () (.task .dns) 0,.quiet () (.task .dns) 0,
    .connected () .dns 0 (),.quiet () (.task .dns) 0,.quiet () (.get 0) 0,
    .quiet () (.task (.report 0 (.v4 1))) 0,.quiet () (.task (.report 0 (.v4 1))) 0]

theorem overtaken_report {u : World Unit Unit}
    (h : run World.step World.init (overtaken ++ [.quiet () (.task .dns) 0]) = some u) (call : ℕ)
    (ip : IpAddr) : ((u.pool ()).task (.report call ip)).Between (.report call ip) := by
  by_cases hid : TaskId.report call ip = .report 0 (.v4 1)
  · rw [hid]
    cases h
    trivial
  · have hls : ∀ l ∈ overtaken ++ [.quiet () (.task .dns) 0], l.actor ≠ .task (.report call ip) := by
      grind [overtaken,Label.quiet,Label.answered,Label.connected]
    rw [World.run_task_of_not_future (by simp) hls h ()]
    trivial

/-- With nothing in flight any more the address is in neither list. -/
theorem listed_fails : ∃ (ls : List (Label Unit Unit)) (l : Label Unit Unit)
    (w u : World Unit Unit), (∀ m ∈ ls ++ [l], Answered () (.v4 1) m) ∧
      run World.step World.init ls = some w ∧ Completes () w l ∧ run World.step w [l] = some u ∧
        (u.pool ()).Quiescent ∧ ¬ Listed (u.pool ()).lists (.v4 1) := by
  have h : (run World.step World.init (overtaken ++ [.quiet () (.task .dns) 0])).map
      (fun u => ((u.pool ()).lists.readyIps,(u.pool ()).lists.brokenIps)) = some ([],[]) := by
    decide
  obtain ⟨u,hu,hlists⟩ := Option.map_eq_some_iff.mp h
  obtain ⟨hready,hbroken⟩ := Prod.mk.inj hlists
  obtain ⟨w,hw,hlast⟩ := run_append.mp hu
  refine ⟨overtaken,_,w,u,by decide,hw,?_,hlast,⟨?_,?_⟩,?_⟩
  · cases hw
    exact ⟨rfl,[],rfl⟩
  · intro id
    cases id with
    | report call ip => exact overtaken_report hu call ip
    | dns | doctor | future =>
      cases hu
      trivial
  · intro call
    cases hu
    cases call <;> trivial
  · rw [Listed,hready,hbroken]
    simp

end Conservation
end SodaPool
