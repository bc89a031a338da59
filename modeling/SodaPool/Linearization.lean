import SodaPool.Moves

/-!
# When `get_channel` takes its answer

A call of `get_channel` can read the ready list up to three times, wait for a lock in
between, or leave the reading to its futures. Seen from outside it is one `get_any`: in one
of its steps it reads the list, and that is the answer it returns.
-/

namespace SodaPool
namespace Linearization

open Transition

variable {π Channel : Type}

/-- What a call that stands at a point would return if it did not read the list again. -/
def answered : GetChannel Channel → Option (Option (IpAddr × Channel))
  | .tryRead | .ageTest => some none
  | .release out | .done out => some out
  | _ => none

/-- The step reads the ready list for the call, and `out` is what it finds. -/
structure Reads (q : π) (call : ℕ) (out : Option (IpAddr × Channel)) (w : World π Channel)
    (l : Label π Channel) (w' : World π Channel) : Prop where
  pool : l.pool = q
  serves : l.actor.Serves call
  running : ((w.pool q).get call).result = none
  getAny : (w.pool q).lists.ready.getAny = (out,(w'.pool q).lists.ready)

theorem reads_of_getAny {w w' : World π Channel} {q : π} {call : ℕ} {i : Input Channel}
    {out : Option (IpAddr × Channel)} {next : Option (IpAddr × Channel) → GetChannel Channel}
    (hp : w'.pool q = (w.pool q).getAny call next) (hrun : ((w.pool q).get call).result = none)
    (hout : (w.pool q).lists.ready.getAny.1 = out) : Reads q call out w ⟨q,.get call,i⟩ w' := by
  refine ⟨rfl,rfl,hrun,Prod.ext hout ?_⟩
  rw [hp]
  rfl

variable [DecidableEq π]

/-- A step of the call itself answers only what it has just read. -/
theorem reads_of_get {w w' : World π Channel} {q : π} {call : ℕ} {i : Input Channel}
    {out : Option (IpAddr × Channel)} (h : w.step ⟨q,.get call,i⟩ = some w')
    (hbefore : answered ((w.pool q).get call) ≠ some out)
    (hafter : answered ((w'.pool q).get call) = some out) : Reads q call out w ⟨q,.get call,i⟩ w' := by
  have hstep := Pool.stepGet_eq_some.mp (World.stepGet_of_step h)
  generalize hp : w'.pool q = p' at hstep hafter
  generalize hr : w'.recheck = r' at hstep
  generalize hg : (w.pool q).get call = g at hstep hbefore
  cases hstep with
  | start =>
    simp only [Pool.getAny,Function.update_self] at hafter
    apply reads_of_getAny hp (by rw [hg]; rfl)
    cases hany : (w.pool q).lists.ready.getAny.1 <;> simp_all [answered]
  | getAnyLocked =>
    simp only [Pool.getAny,Function.update_self] at hafter
    apply reads_of_getAny hp (by rw [hg]; rfl)
    cases hany : (w.pool q).lists.ready.getAny.1 <;> simp_all [answered]
  | getAnyLast =>
    simp only [Pool.getAny,Function.update_self,answered,Option.some.injEq] at hafter
    exact reads_of_getAny hp (by rw [hg]; rfl) hafter
  | tryRead | recent | release =>
    simp only [Pool.setGet,Function.update_self] at hafter
    exact absurd hafter hbefore
  | snapshot => simp [Pool.push,answered] at hafter
  | busy | due | dropRead | requestWrite | awaitWrite | stamp | requestWait | awaitWait
  | releaseWait => simp [Pool.setGet,answered] at hafter

/-- A future that completes reads the list for its call. -/
theorem reads_of_task {w w' : World π Channel} {q : π} {id : TaskId} {call : ℕ} {i : Input Channel}
    {out : Option (IpAddr × Channel)} (h : w.step ⟨q,.task id,i⟩ = some w')
    (hbefore : answered ((w.pool q).get call) ≠ some out)
    (hafter : answered ((w'.pool q).get call) = some out) : Reads q call out w ⟨q,.task id,i⟩ w' := by
  have hm : (w.pool q).Move (.task id) i (w'.pool q) := (World.step_move h).2.2.1
  generalize hp : w'.pool q = p' at hm hafter
  cases hm with
  | task => exact absurd hafter hbefore
  | @yield call' number n i hget hsel =>
    by_cases hc : call = call'
    · subst hc
      simp only [Pool.yield,Function.update_self,answered,Option.some.injEq] at hafter
      refine ⟨rfl,rfl,by rw [hsel]; rfl,Prod.ext hafter ?_⟩
      rw [hp]
      rfl
    · simp only [Pool.yield,Function.update_of_ne hc] at hafter
      exact absurd hafter hbefore

theorem reads_of_step {w w' : World π Channel} {l : Label π Channel} {q : π} {call : ℕ}
    {out : Option (IpAddr × Channel)} (h : w.step l = some w')
    (hbefore : answered ((w.pool q).get call) ≠ some out)
    (hafter : answered ((w'.pool q).get call) = some out) : Reads q call out w l w' := by
  obtain ⟨q',actor,i⟩ := l
  obtain ⟨-,-,hm,hother⟩ := World.step_move h
  by_cases hq : q = q'
  · subst hq
    by_cases hserves : actor.Serves call
    · cases actor with
      | task id => exact reads_of_task h hbefore hafter
      | get call' =>
        obtain rfl : call' = call := hserves
        exact reads_of_get h hbefore hafter
      | cancel call' => exact hserves.elim
    · by_cases hc : actor = .cancel call
      · subst hc
        dsimp only at hm
        generalize w'.pool q = p' at hm hafter
        cases hm
        simp [Pool.cancel,answered] at hafter
      · rw [hm.get_of_not_serves hserves hc] at hafter
        exact absurd hafter hbefore
  · rw [hother q hq] at hafter
    exact absurd hafter hbefore

/-- `get_channel` is linearizable: what it returns is the answer of one `get_any` on the
ready list of its pool, taken in a step between its start and its return. It returns nothing
only if the list was empty at that moment. -/
theorem linearizes_of_run {w u : World π Channel} {ls : List (Label π Channel)} {q : π} {call : ℕ}
    {out : Option (IpAddr × Channel)} (hstart : (w.pool q).get call = .start)
    (hr : run World.step w ls = some u) (hdone : (u.pool q).get call = .done out) :
    ∃ pre l post t t', ls = pre ++ l::post ∧ run World.step w pre = some t ∧ t.step l = some t' ∧
      Reads q call out t l t' ∧ (out = none ↔ (t.pool q).lists.ready.channels = []) := by
  have hbefore : ¬ answered ((w.pool q).get call) = some out := by simp [hstart,answered]
  have hafter : answered ((u.pool q).get call) = some out := by rw [hdone]; rfl
  obtain ⟨pre,l,post,t,t',rfl,hpre,hstep,hnot,hnow⟩ := exists_change
    (Q := fun w : World π Channel => answered ((w.pool q).get call) = some out) hbefore hr hafter
  have hreads := reads_of_step hstep hnot hnow
  refine ⟨pre,l,post,t,t',rfl,hpre,hstep,hreads,?_⟩
  rw [← ReadyChannels.getAny_eq_none,hreads.getAny]

/-- A call finds nothing and queues for the lock. Meanwhile `check_dns` connects to a server,
so the second look at the list is the one that is answered. -/
def secondLook : List (Label Unit ℕ) :=
  List.replicate 6 (.quiet () (.get 0) 0) ++
    [.answered () .dns 0 [.v4 1],.quiet () (.task .dns) 0,.quiet () (.task .dns) 0,
      .connected () .dns 0 7,.quiet () (.task .dns) 0,.quiet () (.get 0) 0,.quiet () (.get 0) 0]

theorem linearizes_secondLook : ∃ pre l post t t', secondLook = pre ++ l::post ∧
    run World.step World.init pre = some t ∧ t.step l = some t' ∧
      Reads () 0 (some (.v4 1,7)) t l t' ∧
        ((some ((.v4 1,7) : IpAddr × ℕ)) = none ↔ (t.pool ()).lists.ready.channels = []) := by
  have h : (run World.step World.init secondLook).map (fun u => ((u.pool ()).get 0).result) =
      some (some (some (.v4 1,7))) := by decide
  obtain ⟨u,hu,hres⟩ := Option.map_eq_some_iff.mp h
  have hdone : (u.pool ()).get 0 = .done (some (.v4 1,7)) := by
    cases hg : (u.pool ()).get 0 <;> simp_all [GetChannel.result]
  exact linearizes_of_run rfl hu hdone

end Linearization
end SodaPool
