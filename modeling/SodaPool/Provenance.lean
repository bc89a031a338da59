import SodaPool.Moves

/-!
# Where channels come from

A channel is paired with an address when the connection to `build(address)` succeeds, in
a `check_dns` or in a `recheck_broken_endpoint`. From then on pairs are only copied, from
one list to another, so the pairing survives every reshuffling of the lists.
-/

namespace SodaPool
namespace Provenance

open Containers Transition

variable {π Channel : Type}

/-- The address whose endpoint the next step of a task connects to. -/
def dials : Task Channel → Option IpAddr
  | .checkDns (.connect address _) => some address
  | .recheck (.connect entry) => some entry.address
  | _ => none

/-- The pairs in the hands of a task. -/
def held : Task Channel → List (IpAddr × Channel)
  | .checkDns (.find _ l) | .checkDns (.getAddress _ l) | .checkDns (.connect _ l) => l.ready
  | .checkDns (.replaceReady l) | .checkDns (.replaceBroken l) => l.ready
  | .recheck (.add ip channel) => [(ip,channel)]
  | .completed out => out.toList
  | _ => []

/-- What a call has been given, returned or not. -/
def given : GetChannel Channel → Option (IpAddr × Channel)
  | .release out | .done out => out
  | _ => none

@[simp] theorem held_loop (l : Locals Channel) : held (.checkDns (CheckDns.loop l)) = l.ready := by
  obtain ⟨addresses,ready,broken⟩ := l
  cases addresses <;> rfl

@[simp] theorem held_resume (id : TaskId) : held (Task.resume id : Task Channel) = [] := by
  cases id <;> rfl

/-- A pair new to the hands of a task is from the ready list, or from its own connection. -/
theorem held_step {id : TaskId} {s : Lists Channel} {i : Input Channel} {t : Task Channel}
    {r : Lists Channel × Task Channel} (h : t.step id s i = some r) {e : IpAddr × Channel}
    (he : e ∈ held r.2) :
    e ∈ held t ∨ e ∈ s.ready.channels ∨ dials t = some e.1 ∧ i.outcome = some e.2 := by
  have hlocals {l : Locals Channel} {channel : Channel} {ip : IpAddr}
      (he : e ∈ l.ready ++ [(ip,channel)]) : e ∈ l.ready ∨ e = (ip,channel) := by
    simpa using he
  have hresume (he : e ∈ held (Task.resume id : Task Channel)) : False := by
    rw [held_resume] at he
    cases he
  obtain ⟨s',t'⟩ := r
  cases Task.taskStep_of_step h with
  | checkDns hgoes =>
    cases hgoes with
    | resolved =>
      rw [held_loop] at he
      cases he
    | ready hf =>
      rw [held_loop] at he
      rcases hlocals he with hl | rfl
      · exact .inl hl
      · exact .inr (.inl (ReadyChannels.find_mem hf))
    | connected ho =>
      rw [held_loop] at he
      rcases hlocals he with hl | rfl
      · exact .inl hl
      · exact .inr (.inr ⟨rfl,ho⟩)
    | broken | refused =>
      rw [held_loop] at he
      exact .inl he
    | notReady | unknown | replaceReady => exact .inl he
  | connected ho =>
    simp only [held,List.mem_singleton] at he
    subst he
    exact .inr (.inr ⟨rfl,ho⟩)
  | checkDnsEnds | add | reAdd | insert => exact (hresume he).elim
  | refused | remove | taken | waits => cases he

/-- A pair new to the hands of the tasks is from the ready list, or from a connection. -/
theorem held_of_move {p p' : Pool Channel} {actor : Actor} {i : Input Channel}
    (hm : p.Move actor i p') {id : TaskId} {e : IpAddr × Channel} (he : e ∈ held (p'.task id)) :
    e ∈ held (p.task id) ∨ e ∈ p.lists.ready.channels ∨
      actor = .task id ∧ dials (p.task id) = some e.1 ∧ i.outcome = some e.2 := by
  have hset (call : ℕ) (futures : ℕ → Task Channel)
      (he : e ∈ held (Pool.setFutures call futures p.task id)) :
      e ∈ held (p.task id) ∨ ∃ number, e ∈ held (futures number) := by
    by_cases hc : ∃ number, id = .future call number
    · obtain ⟨number,rfl⟩ := hc
      rw [Pool.setFutures_self] at he
      exact .inr ⟨number,he⟩
    · rw [Pool.setFutures_of_ne futures p.task (fun number hid => hc ⟨number,hid⟩)] at he
      exact .inl he
  cases hm with
  | @task id' i r hstep =>
    by_cases hid : id = id'
    · subst hid
      simp only [Function.update_self] at he
      rcases held_step hstep he with hold | hready | hown
      · exact .inl hold
      · exact .inr (.inl hready)
      · exact .inr (.inr ⟨rfl,hown⟩)
    · simp only [Function.update_of_ne hid] at he
      exact .inl he
  | @yield call number n i hget hsel =>
    rcases hset call _ he with hold | ⟨j,hj⟩
    · exact .inl hold
    · split at hj
      · exact .inr (.inl (ReadyChannels.getAny_mem (Option.mem_toList.mp hj)))
      · cases hj
  | @push call i hg =>
    rcases hset call _ he with hold | ⟨j,hj⟩
    · exact .inl hold
    · cases j with
      | zero => cases hj
      | succ j =>
        simp only [Pool.pushed] at hj
        cases hentry : p.lists.broken.addresses[j]? <;> simp [hentry,held] at hj
  | call => exact .inl he
  | @cancel call i =>
    rcases hset call _ he with hold | ⟨-,hj⟩
    · exact .inl hold
    · cases hj

/-- What is new in the ready list was in the hands of the task that moves. -/
theorem ready_of_move {p p' : Pool Channel} {actor : Actor} {i : Input Channel}
    (hm : p.Move actor i p') {e : IpAddr × Channel} (he : e ∈ p'.lists.ready.channels) :
    e ∈ p.lists.ready.channels ∨ ∃ id, actor = .task id ∧ e ∈ held (p.task id) := by
  rw [hm.lists.1] at he
  cases hwrite : p.write actor i with
  | replaceReady new =>
    rw [hwrite] at he
    obtain ⟨id,l,ha,hl,rfl⟩ := Pool.write_eq_replaceReady hwrite
    exact .inr ⟨id,ha,by rw [hl]; exact he⟩
  | add ip channel =>
    rw [hwrite] at he
    rcases List.mem_append.mp he with hold | hnew
    · exact .inl hold
    · obtain ⟨id,ha,hid⟩ := Pool.write_eq_add hwrite
      exact .inr ⟨id,ha,by rw [hid]; exact hnew⟩
  | remove ip =>
    rw [hwrite] at he
    exact .inl (mem_of_mem_removeFirst Prod.fst he)
  | nothing | replaceBroken | insert | pop =>
    rw [hwrite] at he
    exact .inl he

/-- A call is given a pair in a step of its own, out of the ready list. -/
theorem given_of_stepGet [DecidableEq π] {p p' : Pool Channel} {r r' : RecheckLock π} {me : π}
    {call now : ℕ} (h : p.stepGet r me call now = some (r',p')) {call' : ℕ}
    {e : IpAddr × Channel} (he : given (p'.get call') = some e) :
    given (p.get call') = some e ∨
      call' = call ∧ (p.get call).result = none ∧ e ∈ p.lists.ready.channels := by
  by_cases hc : call' = call
  · subst hc
    have hstep := Pool.stepGet_eq_some.mp h
    generalize hg : p.get call' = g at hstep
    cases hstep with
    | start | getAnyLocked =>
      simp only [Pool.getAny,Function.update_self] at he
      cases hany : p.lists.ready.getAny.1 with
      | none => simp [hany,given] at he
      | some e' =>
        simp only [hany,Option.isSome_some,if_true,given,Option.some.injEq] at he
        subst he
        exact .inr ⟨rfl,rfl,ReadyChannels.getAny_mem hany⟩
    | getAnyLast =>
      simp only [Pool.getAny,Function.update_self,given] at he
      exact .inr ⟨rfl,rfl,ReadyChannels.getAny_mem he⟩
    | release =>
      simp only [Pool.setGet,Function.update_self] at he
      exact .inl he
    | snapshot => simp [Pool.push,given] at he
    | _ => simp [Pool.setGet,given] at he
  · have hm := Pool.stepGet_move (i := ⟨now,none,none,false,0⟩) h
    rw [hm.get_of_not_serves (Ne.symm hc) (by simp)] at he
    exact .inl he

/-- A call is given a pair in one of its steps, out of the ready list. -/
theorem given_of_step [DecidableEq π] {w w' : World π Channel} {l : Label π Channel} (h : w.step l = some w')
    {q : π} {call : ℕ} {e : IpAddr × Channel} (he : given ((w'.pool q).get call) = some e) :
    given ((w.pool q).get call) = some e ∨ l.pool = q ∧ l.actor.Serves call ∧
      ((w.pool q).get call).result = none ∧ e ∈ (w.pool q).lists.ready.channels := by
  obtain ⟨-,r,p,hturn,rfl⟩ := World.step_eq_some.mp h
  by_cases hq : q = l.pool
  · subst hq
    simp only [Function.update_self] at he
    have hm := World.turn_move hturn
    by_cases hserves : l.actor.Serves call
    · cases ha : l.actor with
      | task id =>
        rw [ha] at hm hserves
        cases hm with
        | task => exact .inl he
        | @yield call' number n i hget hsel =>
          obtain rfl : call' = call := hserves
          simp only [Pool.yield,Function.update_self,given] at he
          exact .inr ⟨rfl,rfl,by rw [hsel]; rfl,ReadyChannels.getAny_mem he⟩
      | get call' =>
        simp only [World.turn,ha] at hturn
        rcases given_of_stepGet hturn he with hold | ⟨rfl,hres,hmem⟩
        · exact .inl hold
        · exact .inr ⟨rfl,rfl,hres,hmem⟩
      | cancel call' =>
        rw [ha] at hserves
        exact hserves.elim
    · by_cases hc : l.actor = .cancel call
      · rw [hc] at hm
        cases hm
        simp [Pool.cancel,given] at he
      · rw [hm.get_of_not_serves hserves hc] at he
        exact .inl he
  · simp only [Function.update_of_ne hq] at he
    exact .inl he

/-- Every pair in a pool is in `R`: those in the ready list, those in the hands of its tasks,
and those that calls have been given. -/
structure Paired (R : IpAddr × Channel → Prop) (p : Pool Channel) : Prop where
  ready : ∀ e ∈ p.lists.ready.channels, R e
  tasks : ∀ id, ∀ e ∈ held (p.task id), R e
  calls : ∀ call e, given (p.get call) = some e → R e

theorem paired_init (R : IpAddr × Channel → Prop) : Paired R Pool.init where
  ready := by simp [Pool.init,ReadyChannels.empty]
  tasks id e he := by cases id <;> cases he
  calls call e he := by cases he

variable [DecidableEq π]

/-- A step of a pool ends in a connection to the endpoint of an address. -/
def Connects (q : π) (e : IpAddr × Channel) (w : World π Channel) (l : Label π Channel) : Prop :=
  l.pool = q ∧ (∃ id, l.actor = .task id ∧ dials ((w.pool q).task id) = some e.1) ∧
    l.input.outcome = some e.2

theorem paired_step {R : IpAddr × Channel → Prop} {w w' : World π Channel} {l : Label π Channel}
    {q : π} (hp : Paired R (w.pool q)) (hR : ∀ e, Connects q e w l → R e)
    (h : w.step l = some w') : Paired R (w'.pool q) := by
  have hcalls (call : ℕ) (e : IpAddr × Channel)
      (he : given ((w'.pool q).get call) = some e) : R e := by
    rcases given_of_step h he with hold | ⟨-,-,-,hmem⟩
    · exact hp.calls call e hold
    · exact hp.ready e hmem
  apply World.pool_step h hp
  rintro rfl hm
  refine ⟨fun e he => ?_,fun id e he => ?_,hcalls⟩
  · rcases ready_of_move hm he with hold | ⟨id,-,hid⟩
    · exact hp.ready e hold
    · exact hp.tasks id e hid
  · rcases held_of_move hm he with hold | hready | ⟨ha,hd,ho⟩
    · exact hp.tasks id e hold
    · exact hp.ready e hready
    · exact hR e ⟨rfl,⟨id,ha,hd⟩,ho⟩

/-- The channel of the pair is what a connection to the address of the pair gave, in an
earlier step of the run. -/
def Produced (q : π) (ls : List (Label π Channel)) (e : IpAddr × Channel) : Prop :=
  ∃ pre l post w, ls = pre ++ l::post ∧ run World.step World.init pre = some w ∧ Connects q e w l

/-- The call has read the pair from the ready list, in an earlier step of the run. -/
def Read (q : π) (call : ℕ) (ls : List (Label π Channel)) (e : IpAddr × Channel) : Prop :=
  ∃ pre l post w, ls = pre ++ l::post ∧ run World.step World.init pre = some w ∧ l.pool = q ∧
    l.actor.Serves call ∧ ((w.pool q).get call).result = none ∧
      e ∈ (w.pool q).lists.ready.channels

theorem read_of_given {ls : List (Label π Channel)} {u : World π Channel} {q : π} {call : ℕ}
    {e : IpAddr × Channel} (hr : run World.step World.init ls = some u)
    (he : given ((u.pool q).get call) = some e) : Read q call ls e := by
  have hnot : ¬ given (((World.init : World π Channel).pool q).get call) = some e := by
    intro h
    cases h
  obtain ⟨pre,l,post,w,w',rfl,hpre,hstep,hbefore,hafter⟩ :=
    exists_change (Q := fun w : World π Channel => given ((w.pool q).get call) = some e) hnot hr he
  rcases given_of_step hstep hafter with hold | hread
  · exact absurd hold hbefore
  · exact ⟨pre,l,post,w,rfl,hpre,hread⟩

/-- No channel is ever paired with another address than the one it was connected to, and
what `get_channel` returns it has read from the ready list during the call. -/
theorem attributed_of_run {ls : List (Label π Channel)} {u : World π Channel}
    (hr : run World.step World.init ls = some u) (q : π) :
    Paired (Produced q ls) (u.pool q) ∧
      ∀ call e, ((u.pool q).get call).result = some (some e) →
        Produced q ls e ∧ Read q call ls e := by
  have halong : Along World.step (fun w l => ∀ e, Connects q e w l → Produced q ls e)
      World.init ls :=
    along_of_split (fun pre l post w hsplit hpre e he => ⟨pre,l,post,w,hsplit,hpre,he⟩)
  have hpaired : Paired (Produced q ls) (u.pool q) :=
    run_invariant (I := fun w => Paired (Produced q ls) (w.pool q))
      (fun _ _ _ hp hR h => paired_step hp hR h) (paired_init _) halong hr
  refine ⟨hpaired,fun call e he => ?_⟩
  have hgiven : given ((u.pool q).get call) = some e := by
    cases hg : (u.pool q).get call <;> simp_all [GetChannel.result,given]
  exact ⟨hpaired.calls call e hgiven,read_of_given hr hgiven⟩

/-- An address is connected to and then handed out. -/
def handedOut : List (Label Unit ℕ) :=
  [.answered () .dns 0 [.v4 1],.quiet () (.task .dns) 0,.quiet () (.task .dns) 0,
    .connected () .dns 0 7,.quiet () (.task .dns) 0,.quiet () (.get 3) 0]

theorem attributed_handedOut :
    Produced () handedOut (.v4 1,7) ∧ Read () 3 handedOut (.v4 1,7) := by
  have h : (run World.step World.init handedOut).map (fun u => ((u.pool ()).get 3).result) =
      some (some (some (.v4 1,7))) := by decide
  obtain ⟨u,hu,hres⟩ := Option.map_eq_some_iff.mp h
  exact (attributed_of_run hu ()).2 3 _ hres

end Provenance
end SodaPool
