import SodaPool.Moves

/-!
# Updates during a look-up of the domain

`check_dns` reads both lists entry by entry, connects in between and then overwrites both.
What it leaves behind for an address is what its own look-ups have seen of it, so an
update made meanwhile survives exactly when the look-ups have seen the same.
-/

namespace SodaPool
namespace LostUpdate

open Containers Transition

variable {π Channel : Type}

/-- What a look-up finds out: a channel to an address, or a broken entry. -/
inductive Sight (Channel : Type)
  | ready (ip : IpAddr) (channel : Channel)
  | broken (entry : DelayedAddress)

/-- What the next step of a `check_dns` finds out, from the lists or by connecting. -/
def sees (s : Lists Channel) (i : Input Channel) : CheckDns Channel → Option (Sight Channel)
  | .find address _ => (s.ready.find address).map (.ready address)
  | .getAddress address _ => (s.broken.getAddress address i.order).map .broken
  | .connect address _ =>
    match i.outcome with
    | some channel => some (.ready address channel)
    | none => some (.broken (DelayedAddress.ofAddress i.now address))
  | _ => none

/-- The points at which a `check_dns` looks an address up or connects to it. -/
def Looks : CheckDns Channel → Prop
  | .find _ _ | .getAddress _ _ | .connect _ _ => True
  | _ => False

/-- The address is being looked up, and the ready list is done. -/
def Met (a : IpAddr) : CheckDns Channel → Prop
  | .getAddress address _ | .connect address _ => address = a
  | _ => False

def locals : CheckDns Channel → Locals Channel
  | .resolve => ⟨[],[],[]⟩
  | .find _ l | .getAddress _ l | .connect _ l | .replaceReady l | .replaceBroken l => l

/-- The two new lists hold what has been seen. -/
structure Filed (l : Locals Channel) (seen : List (Sight Channel)) : Prop where
  ready : ∀ ip channel, (ip,channel) ∈ l.ready ↔ .ready ip channel ∈ seen
  broken : ∀ d, d ∈ l.broken ↔ .broken d ∈ seen

theorem filed_loop {l : Locals Channel} {seen : List (Sight Channel)} :
    Filed (locals (CheckDns.loop l)) seen ↔ Filed l seen := by
  obtain ⟨addresses,ready,broken⟩ := l
  cases addresses with
  | nil => rfl
  | cons address rest => exact ⟨fun h => ⟨h.ready,h.broken⟩,fun h => ⟨h.ready,h.broken⟩⟩

theorem Filed.pushReady {l : Locals Channel} {seen : List (Sight Channel)} (h : Filed l seen)
    (ip : IpAddr) (channel : Channel) :
    Filed { l with ready := l.ready ++ [(ip,channel)] } (seen ++ [.ready ip channel]) := by
  constructor
  · intro ip' channel'
    simp [h.ready ip' channel']
  · intro d
    simp [h.broken d]

theorem Filed.pushBroken {l : Locals Channel} {seen : List (Sight Channel)} (h : Filed l seen)
    (d : DelayedAddress) :
    Filed { l with broken := l.broken ++ [d] } (seen ++ [.broken d]) := by
  constructor
  · intro ip channel
    simp [h.ready ip channel]
  · intro e
    simp [h.broken e]

/-- A look-up files what it has seen. -/
theorem Filed.step {s : Lists Channel} {i : Input Channel} {c c' : CheckDns Channel}
    {seen : List (Sight Channel)} (hc : Filed (locals c) seen) (hl : Looks c)
    (h : (c.step s i).2 = some c') : Filed (locals c') (seen ++ (sees s i c).toList) := by
  obtain ⟨s',hgoes⟩ := CheckDns.exists_goes h
  cases hgoes with
  | resolved | replaceReady => exact hl.elim
  | @ready address channel l hf =>
    have hfiled : Filed l seen := hc
    simpa [sees,hf] using filed_loop.mpr (hfiled.pushReady address channel)
  | notReady hf => simpa [sees,hf,locals] using hc
  | @broken address entry l hg =>
    have hfiled : Filed l seen := hc
    simpa [sees,hg] using filed_loop.mpr (hfiled.pushBroken entry)
  | unknown hg => simpa [sees,hg,locals] using hc
  | @connected address channel l ho =>
    have hfiled : Filed l seen := hc
    simpa [sees,ho] using filed_loop.mpr (hfiled.pushReady address channel)
  | @refused address l ho =>
    have hfiled : Filed l seen := hc
    have hpush := hfiled.pushBroken (DelayedAddress.ofAddress i.now address)
    simpa [sees,ho] using filed_loop.mpr hpush

/-- The `check_dns` of a task, once it has an answer with the address, holds what it has
seen. -/
def Tracks (t : TaskId) (a : IpAddr) (seen : List (Sight Channel)) (p : Pool Channel) : Prop :=
  ∀ c, p.task t = .checkDns c → c ≠ .resolve → a ∈ c.addresses ∧ Filed (locals c) seen

theorem Tracks.other {t : TaskId} {a : IpAddr} {seen : List (Sight Channel)}
    {p p' : Pool Channel} {actor : Actor} {i : Input Channel} (h : Tracks t a seen p)
    (hm : p.Move actor i p') (ha : actor ≠ .task t) : Tracks t a seen p' := by
  intro c hc hres
  rcases hm.task_cases t with hsame | hfresh | ⟨lists,hown,-⟩
  · exact h c (hsame ▸ hc) hres
  · rw [hc] at hfresh
    cases c <;> simp only [Task.Fresh] at hfresh
    exact absurd rfl hres
  · exact absurd hown ha

theorem Tracks.look {t : TaskId} {a : IpAddr} {seen : List (Sight Channel)}
    {p p' : Pool Channel} {i : Input Channel} {c : CheckDns Channel} (h : Tracks t a seen p)
    (hm : p.Move (.task t) i p') (ht : p.task t = .checkDns c) (hl : Looks c) :
    Tracks t a (seen ++ (sees p.lists i c).toList) p' := by
  have hres : c ≠ .resolve := by
    rintro rfl
    exact hl
  have hb : ∀ l, c ≠ .replaceBroken l := by
    rintro l rfl
    exact hl
  obtain ⟨c',hc'⟩ := CheckDns.exists_step hres hb p.lists i
  have hnext := (hm.checkDns_next ht hc').2
  obtain ⟨ha,hfiled⟩ := h c ht hres
  intro d hd _
  rw [hnext,Task.checkDns.injEq] at hd
  subst hd
  have hperm := ((CheckDns.step_addresses hc').resolve_left (fun h => hres h.1)).2
  exact ⟨hperm.mem_iff.mpr ha,hfiled.step hl hc'⟩

theorem Tracks.resolve {t : TaskId} {a : IpAddr} {p p' : Pool Channel} {i : Input Channel}
    {answer : List IpAddr} (hm : p.Move (.task t) i p') (ht : p.task t = .checkDns .resolve)
    (hi : i.answer = some answer) (ha : a ∈ answer) : Tracks t a [] p' := by
  have hstep : (CheckDns.resolve.step p.lists i).2 = some (CheckDns.loop ⟨answer,[],[]⟩) := by
    simp [CheckDns.step,hi]
  have hnext := (hm.checkDns_next ht hstep).2
  intro d hd _
  rw [hnext,Task.checkDns.injEq] at hd
  subst hd
  refine ⟨?_,filed_loop.mpr ⟨by simp,by simp⟩⟩
  rw [CheckDns.loop_addresses]
  exact List.mem_append_left _ ha

/-- A look-up has found something out about the address. -/
def Saw (a : IpAddr) (seen : List (Sight Channel)) : Prop :=
  (∃ channel, .ready a channel ∈ seen) ∨ ∃ d, .broken d ∈ seen ∧ d.address = a

theorem Filed.saw {l : Locals Channel} {seen : List (Sight Channel)} {a : IpAddr}
    (h : Filed l seen) (ha : a ∈ l.filed) : Saw a seen := by
  rcases List.mem_append.mp ha with hready | hbroken
  · obtain ⟨⟨ip,channel⟩,hmem,rfl⟩ := List.mem_map.mp hready
    exact .inl ⟨channel,(h.ready ip channel).mp hmem⟩
  · obtain ⟨d,hmem,rfl⟩ := List.mem_map.mp hbroken
    exact .inr ⟨d,(h.broken d).mp hmem,rfl⟩

/-- The entries of the address are the same. -/
structure SameAt (a : IpAddr) (s s' : Lists Channel) : Prop where
  ready : ∀ channel, (a,channel) ∈ s.ready.channels ↔ (a,channel) ∈ s'.ready.channels
  broken : ∀ d, d.address = a → (d ∈ s.broken.addresses ↔ d ∈ s'.broken.addresses)

/-- An operation on the address before the step that completes it: a report, a recheck
that has connected or one that has failed. -/
def Updates (a : IpAddr) : Task Channel → Prop
  | .report (.insert d) => d.address = a
  | .recheck (.add ip _) => ip = a
  | .recheck (.insert d) => d.address = a
  | _ => False

/-- How far a `check_dns` has come that an operation overlaps with. -/
inductive Stage (Channel : Type)
  | looking
  | updated (op : Task Channel)
  | published (op : Task Channel)
  | finished (op : Task Channel)

section Overlap

variable [DecidableEq π]

/-- `Overlap q t a w seen stage`: the `check_dns` of the task `t` has got an answer with
`a` and has come to the state `w` and to the stage. Once it has looked `a` up an operation
on `a` completes, and from then on nothing else touches `a`. -/
inductive Overlap (q : π) (t : TaskId) (a : IpAddr) :
    World π Channel → List (Sight Channel) → Stage Channel → Prop
  | resolve {w w' : World π Channel} {i : Input Channel} {answer : List IpAddr} :
      (w.pool q).task t = .checkDns .resolve → i.answer = some answer → a ∈ answer →
      w.step ⟨q,.task t,i⟩ = some w' → Overlap q t a w' [] .looking
  | look {w w' : World π Channel} {seen : List (Sight Channel)} {stage : Stage Channel}
      {i : Input Channel} {c : CheckDns Channel} : Overlap q t a w seen stage →
      (stage = .looking ∨ ∃ op, stage = .updated op) →
      (w.pool q).task t = .checkDns c → Looks c → w.step ⟨q,.task t,i⟩ = some w' →
      Overlap q t a w' (seen ++ (sees (w.pool q).lists i c).toList) stage
  | other {w w' : World π Channel} {seen : List (Sight Channel)} {l : Label π Channel} :
      Overlap q t a w seen .looking → (l.pool = q → l.actor ≠ .task t) →
      w.step l = some w' → Overlap q t a w' seen .looking
  | update {w w' : World π Channel} {seen : List (Sight Channel)} {id : TaskId}
      {i : Input Channel} {c : CheckDns Channel} {op : Task Channel} :
      Overlap q t a w seen .looking →
      (w.pool q).task t = .checkDns c → Met a c ∨ Saw a seen → (w.pool q).task id = op →
      Updates a op → w.step ⟨q,.task id,i⟩ = some w' → Overlap q t a w' seen (.updated op)
  | apart {w w' : World π Channel} {seen : List (Sight Channel)} {stage : Stage Channel}
      {l : Label π Channel} : Overlap q t a w seen stage → (∀ op, stage ≠ .finished op) →
      (l.pool = q → l.actor ≠ .task t) → SameAt a (w.pool q).lists (w'.pool q).lists →
      w.step l = some w' → Overlap q t a w' seen stage
  | publish {w w' : World π Channel} {seen : List (Sight Channel)} {i : Input Channel}
      {l : Locals Channel} {op : Task Channel} : Overlap q t a w seen (.updated op) →
      (w.pool q).task t = .checkDns (.replaceReady l) → w.step ⟨q,.task t,i⟩ = some w' →
      Overlap q t a w' seen (.published op)
  | finish {w w' : World π Channel} {seen : List (Sight Channel)} {i : Input Channel}
      {l : Locals Channel} {op : Task Channel} : Overlap q t a w seen (.published op) →
      (w.pool q).task t = .checkDns (.replaceBroken l) → w.step ⟨q,.task t,i⟩ = some w' →
      Overlap q t a w' seen (.finished op)

/-- The ready list holds of the address what has been seen. -/
def ReadyAs (a : IpAddr) (s : Lists Channel) (seen : List (Sight Channel)) : Prop :=
  ∀ channel, (a,channel) ∈ s.ready.channels ↔ .ready a channel ∈ seen

/-- The heap holds of the address what has been seen. -/
def BrokenAs (a : IpAddr) (s : Lists Channel) (seen : List (Sight Channel)) : Prop :=
  ∀ d, d.address = a → (d ∈ s.broken.addresses ↔ .broken d ∈ seen)

/-- What holds of the pool at each stage. -/
def Agrees (t : TaskId) (a : IpAddr) (seen : List (Sight Channel)) (p : Pool Channel) :
    Stage Channel → Prop
  | .looking | .updated _ => Tracks t a seen p
  | .published _ => Tracks t a seen p ∧ ReadyAs a p.lists seen
  | .finished _ => Saw a seen ∧ ReadyAs a p.lists seen ∧ BrokenAs a p.lists seen

theorem Tracks.step_other {q : π} {t : TaskId} {a : IpAddr} {seen : List (Sight Channel)}
    {w w' : World π Channel} {l : Label π Channel} (h : Tracks t a seen (w.pool q))
    (hl : l.pool = q → l.actor ≠ .task t) (hs : w.step l = some w') :
    Tracks t a seen (w'.pool q) :=
  World.pool_step hs h (fun hq hm => h.other hm (hl hq))

theorem agrees_publish {t : TaskId} {a : IpAddr} {seen : List (Sight Channel)}
    {p p' : Pool Channel} {i : Input Channel} {l : Locals Channel} (h : Tracks t a seen p)
    (hm : p.Move (.task t) i p') (ht : p.task t = .checkDns (.replaceReady l)) :
    Tracks t a seen p' ∧ ReadyAs a p'.lists seen := by
  obtain ⟨ha,hfiled⟩ := h _ ht (by simp)
  have hnext : p'.task t = .checkDns (.replaceBroken l) := (hm.checkDns_next ht rfl).2
  have hlists := hm.lists.1
  have hwrite : p.write (.task t) i = .replaceReady l.ready := by
    simp [Pool.write,ht,Task.write]
  constructor
  · intro c hc _
    rw [hnext,Task.checkDns.injEq] at hc
    subst hc
    exact ⟨ha,hfiled⟩
  · intro channel
    rw [hlists,hwrite]
    exact hfiled.ready a channel

theorem agrees_finish {t : TaskId} {a : IpAddr} {seen : List (Sight Channel)}
    {p p' : Pool Channel} {i : Input Channel} {l : Locals Channel} (h : Tracks t a seen p)
    (hr : ReadyAs a p.lists seen) (hm : p.Move (.task t) i p')
    (ht : p.task t = .checkDns (.replaceBroken l)) :
    Saw a seen ∧ ReadyAs a p'.lists seen ∧ BrokenAs a p'.lists seen := by
  obtain ⟨ha,hfiled⟩ := h _ ht (by simp)
  have hlists := hm.lists
  have hwrite : p.write (.task t) i = .replaceBroken l.broken := by
    simp [Pool.write,ht,Task.write]
  rw [hwrite] at hlists
  refine ⟨hfiled.saw ha,fun channel => ?_,fun d _ => ?_⟩
  · rw [hlists.1]
    exact hr channel
  · rw [hlists.2]
    exact hfiled.broken d

theorem Overlap.agrees {q : π} {t : TaskId} {a : IpAddr} {w : World π Channel}
    {seen : List (Sight Channel)} {stage : Stage Channel} (h : Overlap q t a w seen stage) :
    Agrees t a seen (w.pool q) stage := by
  induction h with
  | resolve ht hi ha hs => exact Tracks.resolve (World.step_move hs).2.2.1 ht hi ha
  | look _ hstage ht hl hs ih =>
    have hm := (World.step_move hs).2.2.1
    rcases hstage with rfl | ⟨op,rfl⟩ <;> exact Tracks.look ih hm ht hl
  | other _ hl hs ih => exact Tracks.step_other ih hl hs
  | update _ ht _ hid hop hs ih =>
    refine Tracks.step_other ih ?_ hs
    rintro - hact
    cases hact
    rw [ht] at hid
    subst hid
    exact hop
  | @apart w w' seen stage l _ hstage hl hsame hs ih =>
    cases stage with
    | looking => exact Tracks.step_other ih hl hs
    | updated op => exact Tracks.step_other ih hl hs
    | published op =>
      refine ⟨Tracks.step_other ih.1 hl hs,fun channel => ?_⟩
      exact (hsame.ready channel).symm.trans (ih.2 channel)
    | finished op => exact absurd rfl (hstage op)
  | publish _ ht hs ih => exact agrees_publish ih (World.step_move hs).2.2.1 ht
  | finish _ ht hs ih => exact agrees_finish ih.1 ih.2 (World.step_move hs).2.2.1 ht

/-- The effect of a completed operation is still there. -/
def Survives (a : IpAddr) (s : Lists Channel) : Task Channel → Prop
  | .report _ => a ∉ s.readyIps ∧ a ∈ s.brokenIps
  | .recheck (.add _ _) => a ∈ s.readyIps
  | .recheck (.insert d) => a ∈ s.brokenIps ∧
      ∀ e ∈ s.broken.addresses, e.address = a → e.failedTimes = d.failedTimes
  | _ => True

/-- The look-ups have seen what the operation is going to do. -/
def Foreseen (a : IpAddr) (seen : List (Sight Channel)) : Task Channel → Prop
  | .report _ => ∀ channel, .ready a channel ∉ seen
  | .recheck (.add _ _) => ∃ channel, .ready a channel ∈ seen
  | .recheck (.insert d) => (∃ e, .broken e ∈ seen ∧ e.address = a) ∧
      ∀ e, .broken e ∈ seen → e.address = a → e.failedTimes = d.failedTimes
  | _ => True

theorem mem_readyIps_iff {a : IpAddr} {s : Lists Channel} {seen : List (Sight Channel)}
    (h : ReadyAs a s seen) : a ∈ s.readyIps ↔ ∃ channel, .ready a channel ∈ seen := by
  constructor
  · intro ha
    obtain ⟨⟨ip,channel⟩,hmem,rfl⟩ := List.mem_map.mp ha
    exact ⟨channel,(h channel).mp hmem⟩
  · rintro ⟨channel,hmem⟩
    exact List.mem_map.mpr ⟨(a,channel),(h channel).mpr hmem,rfl⟩

theorem mem_brokenIps_iff {a : IpAddr} {s : Lists Channel} {seen : List (Sight Channel)}
    (h : BrokenAs a s seen) : a ∈ s.brokenIps ↔ ∃ d, .broken d ∈ seen ∧ d.address = a := by
  constructor
  · intro ha
    obtain ⟨d,hmem,hd⟩ := List.mem_map.mp ha
    exact ⟨d,(h d hd).mp hmem,hd⟩
  · rintro ⟨d,hmem,hd⟩
    exact List.mem_map.mpr ⟨d,(h d hd).mpr hmem,hd⟩

/-- When a `check_dns` finishes, the effect of an operation that it overlapped with is
there exactly when its own look-ups have seen the same. -/
theorem survives_iff {q : π} {t : TaskId} {a : IpAddr} {u : World π Channel}
    {seen : List (Sight Channel)} {op : Task Channel}
    (h : Overlap q t a u seen (.finished op)) :
    Survives a (u.pool q).lists op ↔ Foreseen a seen op := by
  obtain ⟨hsaw,hready,hbroken⟩ := h.agrees
  have hr := mem_readyIps_iff hready
  have hb := mem_brokenIps_iff hbroken
  cases op with
  | report r =>
    simp only [Survives,Foreseen,hr,hb,not_exists]
    constructor
    · exact fun hs => hs.1
    · intro hno
      exact ⟨hno,hsaw.resolve_left (fun ⟨channel,hc⟩ => hno channel hc)⟩
  | recheck r =>
    cases r with
    | connect d => exact Iff.rfl
    | add ip channel => exact hr
    | insert d =>
      simp only [Survives,Foreseen,hb]
      apply and_congr_right
      intro _
      constructor
      · intro hs e he hea
        exact hs e ((hbroken e hea).mpr he) hea
      · intro hs e he hea
        exact hs e ((hbroken e hea).mp he) hea
  | _ => exact Iff.rfl

end Overlap

/-- One address becomes ready. The next `check_dns` finds it ready; it is reported while
that `check_dns` turns to a second address, which refuses the connection. -/
def reported : List (Label Unit Unit) :=
  [.answered () .dns 0 [.v4 1],.quiet () (.task .dns) 0,.quiet () (.task .dns) 0,
    .connected () .dns 0 (),.quiet () (.task .dns) 0,.quiet () (.task .dns) 0,
    .answered () .dns 0 [.v4 1,.v4 2],.quiet () (.task .dns) 0,
    .quiet () (.task (.report 0 (.v4 1))) 0,.quiet () (.task (.report 0 (.v4 1))) 0,
    .quiet () (.task .dns) 0,.quiet () (.task .dns) 0,.quiet () (.task .dns) 0,
    .quiet () (.task .dns) 0,.quiet () (.task .dns) 0]

/-- A step to which the environment says nothing. -/
def nothingSaid : Input Unit := { now := 0 }

theorem overlap_reported : ∃ (u : World Unit Unit) (seen : List (Sight Unit)),
    run World.step World.init reported = some u ∧
    Overlap () .dns (.v4 1) u seen
      (.finished (.report (.insert (DelayedAddress.ofAddress 0 (.v4 1))))) ∧
      .ready (.v4 1) () ∈ seen := by
  have hfound : ∃ w, run World.step World.init (reported.take 6) = some w ∧
      (w.pool ()).task .dns = .checkDns .resolve := ⟨_,rfl,rfl⟩
  obtain ⟨w,hw,ht⟩ := hfound
  cases hw
  have hresolve := Overlap.resolve (q := ()) (a := .v4 1) (i := ⟨0,some [.v4 1,.v4 2],none,false,0⟩)
    ht rfl List.mem_cons_self rfl
  have hfind := hresolve.look (i := nothingSaid) (.inl rfl) rfl trivial rfl
  have hremove := hfind.other (l := .quiet () (.task (.report 0 (.v4 1))) 0) (by simp [Label.quiet])
    rfl
  have hinsert := hremove.update (i := nothingSaid) rfl (.inr (.inl ⟨(),List.mem_cons_self⟩))
    (rfl : (World.pool _ ()).task (.report 0 (.v4 1)) = _) rfl rfl
  have hfindNext := hinsert.look (i := nothingSaid) (.inr ⟨_,rfl⟩) rfl trivial rfl
  have hgetNext := hfindNext.look (i := nothingSaid) (.inr ⟨_,rfl⟩) rfl trivial rfl
  have hconnect := hgetNext.look (i := nothingSaid) (.inr ⟨_,rfl⟩) rfl trivial rfl
  have hpublish := hconnect.publish (i := nothingSaid) rfl rfl
  have hfinish := hpublish.finish (i := nothingSaid) rfl rfl
  exact ⟨_,_,rfl,hfinish,List.mem_cons_self⟩

/-- The `check_dns` puts the reported channel back and takes the report out of the heap. -/
theorem survives_fails : ∃ (ls : List (Label Unit Unit)) (u : World Unit Unit)
    (seen : List (Sight Unit)) (op : Task Unit), run World.step World.init ls = some u ∧
      Overlap () .dns (.v4 1) u seen (.finished op) ∧ ¬ Survives (.v4 1) (u.pool ()).lists op := by
  obtain ⟨u,seen,hu,ho,-⟩ := overlap_reported
  have h : (run World.step World.init reported).map (fun u => (u.pool ()).lists.readyIps) =
      some [.v4 1] := by decide
  rw [hu,Option.map_some,Option.some.injEq] at h
  refine ⟨reported,u,seen,_,hu,ho,fun hs => hs.1 ?_⟩
  rw [h]
  exact List.mem_singleton_self _

/-- The look-up has seen the address ready, which is what the report was about to change. -/
theorem not_survives_reported : ∃ (u : World Unit Unit) (seen : List (Sight Unit))
    (op : Task Unit), Overlap () .dns (.v4 1) u seen (.finished op) ∧
      (Survives (.v4 1) (u.pool ()).lists op ↔ Foreseen (.v4 1) seen op) ∧
      ¬ Foreseen (.v4 1) seen op := by
  obtain ⟨u,seen,-,ho,hseen⟩ := overlap_reported
  exact ⟨u,seen,_,ho,survives_iff ho,fun hf => hf () hseen⟩

end LostUpdate
end SodaPool
