import SodaPool.Linearization
import SodaPool.Tickets

/-!
# One forced recheck at a time

A call that finds the lock of the forced recheck taken waits in its queue, and reads the
ready list once more when it has been let in. The queue is fair, so by then everybody who
was there before it is through. Who gives up leaves the lock and the queue to the others.
-/

namespace SodaPool
namespace Waiters

open Transition Tickets Linearization
open FairLock.RwLock (Role Agrees Touch Ahead)

variable {π Channel : Type}

/-- A call that has nothing to do with the lock any more: it has returned, is cancelled, or
has only waited and takes its last look at the list. -/
def Through : GetChannel Channel → Prop
  | .getAnyLast | .cancelled | .done _ => True
  | _ => False

variable [DecidableEq π]

theorem touch_of_stepGet {p p' : Pool Channel} {r r' : RecheckLock π} {me : π} {call now : ℕ}
    (h : p.stepGet r me call now = some (r',p')) : Touch (me,call) r.lock r'.lock := by
  have hstep := Pool.stepGet_eq_some.mp h
  generalize p.get call = g at hstep
  cases hstep with
  | tryRead hl => exact .tryRead hl
  | awaitWrite hl | awaitWait hl => exact .acquire hl
  | recent | dropRead => exact .releaseRead
  | requestWrite | requestWait => exact .request
  | release | releaseWait => exact .releaseWrite
  | start | busy | due | getAnyLocked | stamp | snapshot | getAnyLast => exact .none

theorem ahead_of_not_owner {w w' : World π Channel} {l : Label π Channel} {c d : π × ℕ}
    (h : w.step l = some w') (hc : ¬ l.Owner c) (hd : ¬ l.Owner d)
    (hahead : w.recheck.lock.Ahead c d) : w'.recheck.lock.Ahead c d := by
  obtain ⟨q,actor,i⟩ := l
  have htouch {call : ℕ} (ha : actor = .get call ∨ actor = .cancel call)
      (ht : Touch (q,call) w.recheck.lock w'.recheck.lock) : w'.recheck.lock.Ahead c d := by
    have hne {e : π × ℕ} (he : ¬ (Label.mk q actor i).Owner e) : (q,call) ≠ e := by
      rintro rfl
      exact he ⟨rfl,ha⟩
    exact hahead.touch (hne hd) (hne hc) ht
  cases actor with
  | task id =>
    rw [World.recheck_of_step h]
    exact hahead
  | get call => exact htouch (.inl rfl) (touch_of_stepGet (World.stepGet_of_step h))
  | cancel call =>
    obtain ⟨-,r,p,hturn,rfl⟩ := World.step_eq_some.mp h
    apply htouch (.inr rfl)
    rw [(stepCancel_eq_some hturn).1]
    exact .forget

/-- Who is through stays so. -/
theorem through_step {w w' : World π Channel} {l : Label π Channel} {d : π × ℕ}
    (h : w.step l = some w') (hd : Through ((w.pool d.1).get d.2)) :
    Through ((w'.pool d.1).get d.2) := by
  by_cases hl : l.Owner d
  · obtain ⟨q,actor,i⟩ := l
    obtain ⟨rfl,rfl | rfl⟩ := hl
    · have hstep := Pool.stepGet_eq_some.mp (World.stepGet_of_step h)
      generalize (w.pool d.1).get d.2 = g at hstep hd
      generalize w'.pool d.1 = p' at hstep
      generalize w'.recheck = r' at hstep
      cases hstep with
      | getAnyLast => simp [Pool.getAny,Through]
      | _ => exact hd.elim
    · have hm : (w.pool d.1).Move (.cancel d.2) i (w'.pool d.1) := (World.step_move h).2.2.1
      generalize w'.pool d.1 = p' at hm
      cases hm
      simp [Pool.cancel,Through]
  · rw [World.get_of_not_owner h hl (fun n hn => by simp [hn,Through] at hd)]
    exact hd

/-- Who is ahead moves on by itself, until it is through. -/
theorem ahead_of_owner {w w' : World π Channel} {l : Label π Channel} {c d : π × ℕ}
    (hw : Agrees w.recheck.lock (roles w)) (h : w.step l = some w') (hl : l.Owner d)
    (hahead : w.recheck.lock.Ahead c d) :
    Through ((w'.pool d.1).get d.2) ∨ w'.recheck.lock.Ahead c d := by
  have hrole : roles w d = .writing ∨ roles w d = .queued :=
    hahead.imp (hw.writer d).mp (fun hd => (hw.waiting d).mp (List.takeWhile_subset _ hd))
  obtain ⟨q,actor,i⟩ := l
  obtain ⟨rfl,rfl | rfl⟩ := hl
  · have hstep := Pool.stepGet_eq_some.mp (World.stepGet_of_step h)
    rw [roles] at hrole
    generalize (w.pool d.1).get d.2 = g at hstep hrole
    generalize w'.pool d.1 = p' at hstep
    generalize w'.recheck = r' at hstep
    cases hstep with
    | awaitWrite hl | awaitWait hl =>
      obtain ⟨rest,-,rfl⟩ := FairLock.RwLock.acquire_eq_some.mp hl
      exact .inr (.inl rfl)
    | getAnyLocked | stamp | snapshot => exact .inr hahead
    | release | releaseWait => exact .inl (by simp [Pool.setGet,Through])
    | start | tryRead | busy | due | recent | dropRead | requestWrite | requestWait | getAnyLast =>
      simp [role] at hrole
  · have hm : (w.pool d.1).Move (.cancel d.2) i (w'.pool d.1) := (World.step_move h).2.2.1
    generalize w'.pool d.1 = p' at hm
    cases hm
    exact .inl (by simp [Pool.cancel,Through])

/-- The call `c` waits for `d`: while it is not let in, `d` is ahead of it or through. -/
def Follows (c d : π × ℕ) (w : World π Channel) : Prop :=
  match (w.pool c.1).get c.2 with
  | .requestWait | .awaitWait =>
    Through ((w.pool d.1).get d.2) ∨ w.recheck.lock.Ahead c d
  | .releaseWait | .getAnyLast | .done _ => Through ((w.pool d.1).get d.2)
  | .cancelled => True
  | _ => False

theorem follows_step {c d : π × ℕ} (hcd : c ≠ d) {w w' : World π Channel} {l : Label π Channel}
    (hw : Agrees w.recheck.lock (roles w)) (hf : Follows c d w) (h : w.step l = some w') :
    Follows c d w' := by
  have hthrough := through_step (d := d) h
  by_cases hc : l.Owner c
  · have hd : ¬ l.Owner d := by
      rintro ⟨hpool,hactor⟩
      apply hcd
      rcases hc.2 with hget | hcancel <;> rcases hactor with ha | ha <;>
        simp_all [Prod.ext_iff,Label.Owner]
    obtain ⟨q,actor,i⟩ := l
    obtain ⟨rfl,rfl | rfl⟩ := hc
    · have hstep := Pool.stepGet_eq_some.mp (World.stepGet_of_step h)
      have hahead (hl : w.recheck.lock.Ahead c d) (hlock : w'.recheck.lock =
          w.recheck.lock.request c) : w'.recheck.lock.Ahead c d := hlock ▸ hl.request c
      simp only [Follows] at hf ⊢
      generalize (w.pool c.1).get c.2 = g at hstep hf
      generalize hp : w'.pool c.1 = p' at hstep
      generalize hr : w'.recheck = r' at hstep hahead
      cases hstep with
      | requestWait =>
        simp only [Pool.setGet,Function.update_self]
        exact hf.imp hthrough (fun hl => hahead hl rfl)
      | awaitWait hl =>
        simp only [Pool.setGet,Function.update_self]
        exact hthrough (hf.resolve_right (FairLock.RwLock.not_ahead_of_acquire hl d))
      | releaseWait =>
        simp only [Pool.setGet,Function.update_self]
        exact hthrough hf
      | getAnyLast =>
        simp only [Pool.getAny,Function.update_self]
        exact hthrough hf
      | _ => exact hf.elim
    · have hm : (w.pool c.1).Move (.cancel c.2) i (w'.pool c.1) := (World.step_move h).2.2.1
      simp only [Follows]
      generalize w'.pool c.1 = p' at hm
      cases hm
      simp [Pool.cancel]
  · have hsel (n : ℕ) : (w.pool c.1).get c.2 ≠ .select n := by
      intro hn
      simp [Follows,hn] at hf
    have hget := World.get_of_not_owner h hc hsel
    simp only [Follows] at hf ⊢
    rw [hget]
    cases hg : (w.pool c.1).get c.2 with
    | requestWait | awaitWait =>
      simp only [hg] at hf ⊢
      rcases hf with hd | hahead
      · exact .inl (hthrough hd)
      · by_cases hd : l.Owner d
        · exact ahead_of_owner hw h hd hahead
        · exact .inr (ahead_of_not_owner h hc hd hahead)
    | releaseWait | getAnyLast | done =>
      simp only [hg] at hf ⊢
      exact hthrough hf
    | cancelled => trivial
    | start | tryRead | ageTest | dropRead | requestWrite | awaitWrite | getAnyLocked | stamp
    | snapshot | select | release => simp [hg] at hf

theorem follows_of_run {c d : π × ℕ} (hcd : c ≠ d) {t u : World π Channel}
    {ls : List (Label π Channel)} (ht : Agrees t.recheck.lock (roles t)) (hf : Follows c d t)
    (hr : run World.step t ls = some u) : Follows c d u :=
  (run_invariant (I := fun v => Agrees v.recheck.lock (roles v) ∧ Follows c d v)
    (P := fun _ _ => True) (fun _ _ _ hv _ h => ⟨agrees_step hv.1 h,follows_step hcd hv.1 hv.2 h⟩)
    ⟨ht,hf⟩ (along_of_forall (fun _ _ _ => trivial) _) hr).2

/-- A future of a call that is in flight. -/
def Live (u : World π Channel) (c : π × ℕ) : Prop :=
  ∃ number, ¬ ((u.pool c.1).task (.future c.2 number)).Settled

/-- Nothing of a call is left: no hold of the lock, no place in its queue, no future. -/
structure Cleared (u : World π Channel) (c : π × ℕ) : Prop where
  readers : c ∉ u.recheck.lock.readers
  writer : u.recheck.lock.writer ≠ some c
  waiting : c ∉ u.recheck.lock.waiting
  futures : ¬ Live u c

/-- There is one forced recheck at a time in the whole process: futures in flight belong to
one call. A call that has returned or was cancelled at any of its awaits leaves nothing
behind, so the lock is free once all calls have ended. -/
theorem serial_of_run {ls : List (Label π Channel)} {u : World π Channel}
    (hr : run World.step World.init ls = some u) :
    (∀ c d, Live u c → Live u d → c = d) ∧
      (∀ c, ((u.pool c.1).get c.2).Ended → Cleared u c) ∧
      ((∀ c : π × ℕ, ((u.pool c.1).get c.2).Ended) → u.recheck.lock = FairLock.RwLock.free) := by
  have hagrees := agrees_of_run hr
  have horderly (q : π) : (u.pool q).Orderly :=
    World.run_pool (fun _ _ _ _ ho hm => hm.orderly ho) Pool.orderly_init hr
  have hselect (c : π × ℕ) (hc : Live u c) : ∃ n, (u.pool c.1).get c.2 = .select n := by
    obtain ⟨number,hnumber⟩ := hc
    by_contra hnone
    exact hnumber (horderly c.1 c.2 number (not_exists.mp hnone))
  have hwriter (c : π × ℕ) (hc : Live u c) : u.recheck.lock.writer = some c := by
    obtain ⟨n,hn⟩ := hselect c hc
    exact (hagrees.writer c).mpr (by simp [roles,hn,role])
  have hrole (c : π × ℕ) (hc : ((u.pool c.1).get c.2).Ended) : roles u c = .out := by
    rw [roles]
    cases hg : (u.pool c.1).get c.2 <;> simp_all [GetChannel.Ended,role]
  have hcleared (c : π × ℕ) (hc : ((u.pool c.1).get c.2).Ended) : Cleared u c := by
    refine ⟨by simp [hagrees.readers,hrole c hc],by simp [hagrees.writer,hrole c hc],
      by simp [hagrees.waiting,hrole c hc],fun hlive => ?_⟩
    obtain ⟨n,hn⟩ := hselect c hlive
    rw [hn] at hc
    exact hc
  refine ⟨fun c d hc hd => Option.some.inj ((hwriter c hc).symm.trans (hwriter d hd)),hcleared,
    fun hall => FairLock.RwLock.ext ?_ ?_ ?_⟩
  · exact List.eq_nil_iff_forall_not_mem.mpr (fun c => (hcleared c (hall c)).readers)
  · exact Option.eq_none_iff_forall_ne_some.mpr (fun c => (hcleared c (hall c)).writer)
  · exact List.eq_nil_iff_forall_not_mem.mpr (fun c => (hcleared c (hall c)).waiting)

/-- A call is cancelled in the middle of its recheck. -/
def dropped : List (Label Unit Unit) :=
  List.replicate 9 (.quiet () (.get 0) 0) ++ [.quiet () (.cancel 0) 0]

theorem serial_dropped : ∃ u : World Unit Unit, run World.step World.init dropped = some u ∧
    Cleared u ((),0) := by
  have hrun : ∃ u : World Unit Unit, run World.step World.init dropped = some u ∧
      (u.pool ()).get 0 = .cancelled := ⟨_,rfl,rfl⟩
  obtain ⟨u,hu,hcancelled⟩ := hrun
  exact ⟨u,hu,(serial_of_run hu).2.1 ((),0) (by rw [hcancelled]; trivial)⟩

end Waiters
end SodaPool
