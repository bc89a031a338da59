import SodaPool.RateLimit

/-!
# What one pool sees of another

Pools built separately share no list. They share the lock of the forced recheck, which is
a static of `get_channel`: the calls of one pool can find it taken, or its timestamp
fresh, by a call of another.
-/

namespace SodaPool
namespace Interference

open Transition FairLock

variable {π Channel : Type} [DecidableEq π]

/-- The calls of the other pools. -/
def others (q : π) (caller : π × ℕ) : Bool := decide (caller.1 ≠ q)

/-- The lock and the record without the calls of a pool. -/
def Rest (q : π) (r r' : RecheckLock π) : Prop :=
  r'.lock = r.lock.restrict (others q) ∧
    r'.stamps = r.stamps.filter (fun s => others q s.caller) ∧ r'.last = lastStamp r'.stamps

/-- Whose stamp it is does not change with the push. -/
theorem filter_push (q : π) (caller : π × ℕ) (stamps : List (Stamp π)) :
    (stamps.map (Stamp.push caller)).filter (fun s => others q s.caller) =
      (stamps.filter (fun s => others q s.caller)).map (Stamp.push caller) := by
  simp [List.filter_map,Function.comp_def]

/-- The push of the pool itself leaves the stamps of the others. -/
theorem map_push_of_not {q : π} {caller : π × ℕ} (hc : others q caller = false)
    (stamps : List (Stamp π)) :
    (stamps.filter (fun s => others q s.caller)).map (Stamp.push caller) =
      stamps.filter (fun s => others q s.caller) := by
  refine (List.map_congr_left (fun s hs => ?_)).trans (List.map_id _)
  have hother := (List.mem_filter.mp hs).2
  have hne : s.caller ≠ caller := by
    rintro rfl
    rw [hc] at hother
    cases hother
  rw [Stamp.push,if_neg hne,id_eq]

/-- The lock gives a call of another pool the answers it would give without the pool. -/
def SameAnswers (q : π) (r : RecheckLock π) (p : Pool Channel) (me : π) (call now : ℕ) : Prop :=
  (p.get call = .tryRead → (r.lock.tryRead (me,call)).isSome =
    ((r.lock.restrict (others q)).tryRead (me,call)).isSome) ∧
  (p.get call = .ageTest → (recheckDue r.last now ↔
    recheckDue (lastStamp (r.stamps.filter (fun s => others q s.caller))) now))

instance (q : π) (r : RecheckLock π) (p : Pool Channel) (me : π) (call now : ℕ) :
    Decidable (SameAnswers q r p me call now) :=
  match h : p.get call with
  | .tryRead => decidable_of_iff ((r.lock.tryRead (me,call)).isSome =
      ((r.lock.restrict (others q)).tryRead (me,call)).isSome) (by simp [SameAnswers,h])
  | .ageTest => decidable_of_iff (recheckDue r.last now ↔
      recheckDue (lastStamp (r.stamps.filter (fun s => others q s.caller))) now)
      (by simp [SameAnswers,h])
  | .start | .dropRead | .requestWrite | .awaitWrite | .getAnyLocked | .stamp | .snapshot
  | .select _ | .release _ | .requestWait | .awaitWait | .releaseWait | .getAnyLast | .cancelled
  | .done _ => isTrue (by simp [SameAnswers,h])

theorem stepGet_rest {q me : π} {p p₁ : Pool Channel} {r r₁ r' : RecheckLock π} {call now : ℕ}
    (hme : me ≠ q) (hr : Rest q r r') (hs : SameAnswers q r p me call now)
    (h : p.stepGet r me call now = some (r₁,p₁)) :
    ∃ r₁', p.stepGet r' me call now = some (r₁',p₁) ∧ Rest q r₁ r₁' := by
  have hc : others q (me,call) = true := by simpa [others] using hme
  obtain ⟨hlock,hstamps,hlast⟩ := hr
  have hstep := Pool.stepGet_eq_some.mp h
  simp only [Pool.stepGet_eq_some]
  generalize hp : p.get call = g at hstep ⊢
  cases hstep with
  | tryRead hl =>
    have hl' := RwLock.restrict_tryRead hc hl
    rw [← hlock] at hl'
    exact ⟨_,.tryRead hl',rfl,hstamps,hlast⟩
  | busy hl =>
    have hsome := hs.1 hp
    rw [hl,← hlock] at hsome
    have hnone := Option.isSome_eq_false_iff.mp hsome.symm
    exact ⟨_,.busy (Option.isNone_iff_eq_none.mp hnone),hlock,hstamps,hlast⟩
  | due hd =>
    have hdue := hs.2 hp
    rw [← hstamps,← hlast] at hdue
    exact ⟨_,.due (hdue.mp hd),hlock,hstamps,hlast⟩
  | recent hd =>
    have hdue := hs.2 hp
    rw [← hstamps,← hlast] at hdue
    refine ⟨_,.recent (fun hd' => hd (hdue.mpr hd')),?_,hstamps,hlast⟩
    rw [hlock,RwLock.restrict_releaseRead]
  | dropRead => exact ⟨_,.dropRead,by rw [hlock,RwLock.restrict_releaseRead],hstamps,hlast⟩
  | requestWrite => exact ⟨_,.requestWrite,by rw [hlock,RwLock.restrict_request hc],hstamps,hlast⟩
  | requestWait => exact ⟨_,.requestWait,by rw [hlock,RwLock.restrict_request hc],hstamps,hlast⟩
  | awaitWrite hl =>
    have hl' := RwLock.restrict_acquire hc hl
    rw [← hlock] at hl'
    exact ⟨_,.awaitWrite hl',rfl,hstamps,hlast⟩
  | awaitWait hl =>
    have hl' := RwLock.restrict_acquire hc hl
    rw [← hlock] at hl'
    exact ⟨_,.awaitWait hl',rfl,hstamps,hlast⟩
  | stamp =>
    refine ⟨_,.stamp,hlock,?_,rfl⟩
    simp [hc,hstamps]
  | snapshot =>
    refine ⟨_,.snapshot,hlock,?_,hlast.trans (lastStamp_push _ _).symm⟩
    rw [hstamps,filter_push]
  | release => exact ⟨_,.release,by rw [hlock,RwLock.restrict_releaseWrite],hstamps,hlast⟩
  | releaseWait => exact ⟨_,.releaseWait,by rw [hlock,RwLock.restrict_releaseWrite],hstamps,hlast⟩
  | start => exact ⟨_,.start,hlock,hstamps,hlast⟩
  | getAnyLocked => exact ⟨_,.getAnyLocked,hlock,hstamps,hlast⟩
  | getAnyLast => exact ⟨_,.getAnyLast,hlock,hstamps,hlast⟩

/-- The calls of the pool itself leave no trace in what the others see. -/
theorem rest_of_stepGet {q : π} {p p₁ : Pool Channel} {r r₁ r' : RecheckLock π} {call now : ℕ}
    (hr : Rest q r r') (h : p.stepGet r q call now = some (r₁,p₁)) : Rest q r₁ r' := by
  have hc : others q (q,call) = false := by simp [others]
  obtain ⟨hlock,hstamps,hlast⟩ := hr
  have hstep := Pool.stepGet_eq_some.mp h
  generalize p.get call = g at hstep
  cases hstep with
  | tryRead hl => exact ⟨by rw [hlock,RwLock.restrict_tryRead_of_not hc hl],hstamps,hlast⟩
  | recent | dropRead =>
    exact ⟨by rw [hlock,RwLock.restrict_releaseRead_of_not hc],hstamps,hlast⟩
  | requestWrite | requestWait =>
    exact ⟨by rw [hlock,RwLock.restrict_request_of_not hc],hstamps,hlast⟩
  | awaitWrite hl => exact ⟨by rw [hlock,RwLock.restrict_acquire_of_not hc hl],hstamps,hlast⟩
  | awaitWait hl => exact ⟨by rw [hlock,RwLock.restrict_acquire_of_not hc hl],hstamps,hlast⟩
  | stamp =>
    refine ⟨hlock,?_,hlast⟩
    simp [hc,hstamps]
  | snapshot =>
    refine ⟨hlock,?_,hlast⟩
    rw [hstamps,filter_push,map_push_of_not hc]
  | release | releaseWait =>
    exact ⟨by rw [hlock,RwLock.restrict_releaseWrite_of_not hc],hstamps,hlast⟩
  | busy | due | start | getAnyLocked | getAnyLast => exact ⟨hlock,hstamps,hlast⟩

theorem stepCancel_rest {q me : π} {p p₁ : Pool Channel} {r r₁ r' : RecheckLock π} {call : ℕ}
    (hr : Rest q r r') (h : p.stepCancel r me call = some (r₁,p₁)) :
    ∃ r₁', p.stepCancel r' me call = some (r₁',p₁) ∧ Rest q r₁ r₁' := by
  obtain ⟨hlock,hstamps,hlast⟩ := hr
  have hgone : p.stepCancel r' me call =
      some ({ r' with lock := r'.lock.forget (me,call) },p₁) ∧
        r₁ = { r with lock := r.lock.forget (me,call) } := by
    cases hg : p.get call <;> simp_all [Pool.stepCancel]
  obtain ⟨hgone,rfl⟩ := hgone
  exact ⟨_,hgone,by rw [hlock,RwLock.restrict_forget],hstamps,hlast⟩

theorem rest_of_stepCancel {q : π} {p p₁ : Pool Channel} {r r₁ r' : RecheckLock π} {call : ℕ}
    (hr : Rest q r r') (h : p.stepCancel r q call = some (r₁,p₁)) : Rest q r₁ r' := by
  have hc : others q (q,call) = false := by simp [others]
  rw [RateLimit.stepCancel_recheck h]
  exact ⟨by rw [hr.1,RwLock.restrict_forget_of_not hc],hr.2⟩

/-- The world without one of its pools. -/
structure Alone (q : π) (w w' : World π Channel) : Prop where
  clock : w'.clock ≤ w.clock
  pools : ∀ p, p ≠ q → w'.pool p = w.pool p
  recheck : Rest q w.recheck w'.recheck

/-- A step of another pool to which the lock answers as it would without the pool. -/
def Undisturbed (q : π) (w : World π Channel) (l : Label π Channel) : Prop :=
  l.pool ≠ q → ∀ call, l.actor = .get call →
    SameAnswers q w.recheck (w.pool l.pool) l.pool call l.input.now

instance (q : π) (w : World π Channel) (l : Label π Channel) : Decidable (Undisturbed q w l) :=
  match h : l.actor with
  | .get call => decidable_of_iff (l.pool ≠ q →
      SameAnswers q w.recheck (w.pool l.pool) l.pool call l.input.now) (by simp [Undisturbed,h])
  | .task _ | .cancel _ => isTrue (by simp [Undisturbed,h])

theorem alone_init (q : π) : Alone q (World.init : World π Channel) World.init :=
  ⟨le_refl _,fun _ _ => rfl,rfl,rfl,rfl⟩

/-- The turn of another pool can be taken without the pool. -/
theorem turn_rest {q : π} {w w' : World π Channel} {l : Label π Channel} {r : RecheckLock π}
    {p : Pool Channel} (hw : Alone q w w') (hl : Undisturbed q w l) (hq : l.pool ≠ q)
    (h : w.turn l = some (r,p)) : ∃ r', w'.turn l = some (r',p) ∧ Rest q r r' := by
  have hpool := hw.pools l.pool hq
  cases ha : l.actor with
  | task id =>
    simp only [World.turn,ha,hpool,Option.map_eq_some_iff] at h ⊢
    obtain ⟨p',hp,heq⟩ := h
    cases heq
    exact ⟨_,⟨_,hp,rfl⟩,hw.recheck⟩
  | get call =>
    simp only [World.turn,ha,hpool] at h ⊢
    exact stepGet_rest hq hw.recheck (hl hq call ha) h
  | cancel call =>
    simp only [World.turn,ha,hpool] at h ⊢
    exact stepCancel_rest hw.recheck h

/-- The turn of the pool itself is not seen without it. -/
theorem rest_of_turn {w : World π Channel} {l : Label π Channel} {r r' : RecheckLock π}
    {p : Pool Channel} (hr : Rest l.pool w.recheck r') (h : w.turn l = some (r,p)) :
    Rest l.pool r r' := by
  cases ha : l.actor with
  | task id =>
    simp only [World.turn,ha,Option.map_eq_some_iff] at h
    obtain ⟨p',-,heq⟩ := h
    cases heq
    exact hr
  | get call =>
    simp only [World.turn,ha] at h
    exact rest_of_stepGet hr h
  | cancel call =>
    simp only [World.turn,ha] at h
    exact rest_of_stepCancel hr h

theorem step_kept {q : π} {w w' t : World π Channel} {l : Label π Channel} (hw : Alone q w w')
    (hl : Undisturbed q w l) (hq : l.pool ≠ q) (h : w.step l = some t) :
    ∃ t', w'.step l = some t' ∧ Alone q t t' := by
  obtain ⟨hclock,r,p,hturn,rfl⟩ := World.step_eq_some.mp h
  obtain ⟨r',hturn',hr⟩ := turn_rest hw hl hq hturn
  have hstep := World.step_eq_some.mpr ⟨hw.clock.trans hclock,r',p,hturn',rfl⟩
  refine ⟨_,hstep,le_refl _,?_,hr⟩
  intro p' hp'
  by_cases hme : p' = l.pool
  · subst hme
    simp
  · simp only [Function.update_of_ne hme]
    exact hw.pools p' hp'

theorem step_dropped {q : π} {w w' t : World π Channel} {l : Label π Channel} (hw : Alone q w w')
    (hq : l.pool = q) (h : w.step l = some t) : Alone q t w' := by
  subst hq
  have hother := (World.step_move h).2.2.2
  obtain ⟨hclock,r,p,hturn,rfl⟩ := World.step_eq_some.mp h
  exact ⟨hw.clock.trans hclock,fun p' hp' => (hw.pools p' hp').trans (hother p' hp').symm,
    rest_of_turn hw.recheck hturn⟩

/-- When no step of another pool is disturbed, the run without the pool exists, and the
other pools end in the same states, with the same stamps of the lock and the same forced
rechecks behind them. -/
theorem alone_of_run {q : π} {ls : List (Label π Channel)} {u : World π Channel}
    (hr : run World.step World.init ls = some u)
    (hl : Along World.step (Undisturbed q) World.init ls) :
    ∃ u', run World.step World.init (ls.filter (fun l => decide (l.pool ≠ q))) = some u' ∧
      (∀ p, p ≠ q → u'.pool p = u.pool p) ∧
        u'.recheck.stamps = u.recheck.stamps.filter (fun s => decide (s.caller.1 ≠ q)) := by
  have hkeep (s s' : World π Channel) (l : Label π Channel) (t : World π Channel)
      (hs : Alone q s s') (hu : Undisturbed q s l) (hq : decide (l.pool ≠ q) = true)
      (h : s.step l = some t) : ∃ t', s'.step l = some t' ∧ Alone q t t' :=
    step_kept hs hu (by simpa using hq) h
  have hdrop (s s' : World π Channel) (l : Label π Channel) (t : World π Channel)
      (hs : Alone q s s') (_ : Undisturbed q s l) (hq : decide (l.pool ≠ q) = false)
      (h : s.step l = some t) : Alone q t s' :=
    step_dropped hs (by simpa using hq) h
  obtain ⟨u',hu',ha⟩ := run_filter hkeep hdrop (alone_init q) hl hr
  exact ⟨u',hu',ha.pools,ha.recheck.2.1⟩

/-- A forced recheck of the second pool, whose domain does not resolve; it is over at once. -/
def second : List (Label Bool Unit) :=
  List.replicate 9 (.quiet false (.get 0) 0) ++
    [.quiet false (.task (.future 0 0)) 0,.quiet false (.task (.future 0 0)) 0,
      .quiet false (.get 0) 0]

/-- The first three steps of a call of the first pool, the age test included. -/
def first (now : ℕ) : List (Label Bool Unit) := List.replicate 3 (.quiet true (.get 0) now)

/-- The rest of the call when it makes its own recheck and the connection succeeds. -/
def remaining (now : ℕ) : List (Label Bool Unit) :=
  List.replicate 6 (.quiet true (.get 0) now) ++
    [.answered true (.future 0 0) now [.v4 1],.quiet true (.task (.future 0 0)) now,
      .quiet true (.task (.future 0 0)) now,.connected true (.future 0 0) now (),
      .quiet true (.task (.future 0 0)) now,.quiet true (.task (.future 0 0)) now,
      .quiet true (.task (.future 0 0)) now,.quiet true (.get 0) now]

/-- 100 ms after a recheck of the second pool a call of the first one gives up. Without the
second pool it goes on to a recheck, and to a channel. -/
theorem alone_fails : ∃ (ls ms : List (Label Bool Unit)) (u v : World Bool Unit),
    run World.step World.init ls = some u ∧ ((u.pool true).get 0).result = some none ∧
      (∀ m ∈ ms, m.pool = true) ∧
      run World.step World.init (ls.filter (fun l => decide (l.pool ≠ false)) ++ ms) = some v ∧
      ((v.pool true).get 0).result = some (some (.v4 1,())) ∧
      v.recheck.starts = [⟨(true,0),100000000,true⟩] := by
  have hu : (run World.step World.init (second ++ first 100000000)).map
      (fun u => ((u.pool true).get 0).result) = some (some none) := by decide
  have hv : (run World.step World.init ((second ++ first 100000000).filter
      (fun l => decide (l.pool ≠ false)) ++ remaining 100000000)).map
      (fun v => (((v.pool true).get 0).result,v.recheck.starts)) =
        some (some (some (.v4 1,())),[⟨(true,0),100000000,true⟩]) := by decide
  obtain ⟨u,hrun,hres⟩ := Option.map_eq_some_iff.mp hu
  obtain ⟨v,hrun',hres'⟩ := Option.map_eq_some_iff.mp hv
  obtain ⟨hsome,hstarts⟩ := Prod.mk.inj hres'
  exact ⟨second ++ first 100000000,remaining 100000000,u,v,hrun,hres,by decide,hrun',hsome,hstarts⟩

/-- 600 ms after it the second pool makes no difference any more. -/
theorem alone_later : ∃ u u' : World Bool Unit,
    run World.step World.init (second ++ first 600000000) = some u ∧
      run World.step World.init (first 600000000) = some u' ∧ u'.pool true = u.pool true := by
  have h : (run World.step World.init (second ++ first 600000000)).isSome := by decide
  obtain ⟨u,hu⟩ := Option.isSome_iff_exists.mp h
  have hl : Along World.step (Undisturbed false) World.init (second ++ first 600000000) := by
    decide
  obtain ⟨u',hu',hpools,-⟩ := alone_of_run hu hl
  exact ⟨u,u',hu,hu',hpools true (by decide)⟩

end Interference
end SodaPool
