import SodaPool.Tickets

/-!
# Sections as single steps

A section reads what is behind its lock when it is let in and writes when it ends, and others
move in between. Here both are kept apart: who is let in takes a copy, and its turn works on
the copy. The locks make this the same as sections of one step: no run is gained and none is
lost. The counter of the ready list and the notifier are not behind the locks, so nobody
copies them.
-/

namespace SodaPool
namespace Atomicity

open Transition LockLine Tickets

variable {π Channel : Type}

/-- What a section finds behind its lock. -/
def behind (need : Option (PoolLock × Mode)) (copy s : Lists Channel) : Lists Channel :=
  match need with
  | none => s
  | some (.ready,_) => { s with ready := { s.ready with channels := copy.ready.channels } }
  | some (.broken,_) => { s with broken := { s.broken with addresses := copy.broken.addresses } }

/-- What a section leaves behind its lock; a shared one writes nothing back. -/
def left (need : Option (PoolLock × Mode)) (before after : Lists Channel) : Lists Channel :=
  match need with
  | some (_,.shared) => behind need before after
  | _ => after

/-- What a lock protects is the same in the two. -/
def SameBehind : PoolLock → Lists Channel → Lists Channel → Prop
  | .ready,s,s' => s.ready.channels = s'.ready.channels
  | .broken,s,s' => s.broken.addresses = s'.broken.addresses

theorem SameBehind.refl (n : PoolLock) (s : Lists Channel) : SameBehind n s s := by
  cases n <;> rfl

theorem SameBehind.trans {n : PoolLock} {s t u : Lists Channel} (h : SameBehind n s t)
    (h' : SameBehind n t u) : SameBehind n s u := by
  cases n with
  | ready => exact Eq.trans h h'
  | broken => exact Eq.trans h h'

theorem behind_eq {n : PoolLock} {mode : Mode} {copy s : Lists Channel}
    (h : SameBehind n copy s) : behind (some (n,mode)) copy s = s := by
  cases n with
  | ready => rw [behind,show copy.ready.channels = s.ready.channels from h]
  | broken => rw [behind,show copy.broken.addresses = s.broken.addresses from h]

/-- A step writes behind a lock that it has to itself. -/
theorem sameBehind_of_move {p p' : Pool Channel} {actor : Actor} {i : Input Channel} {n : PoolLock}
    (hm : p.Move actor i p') (hneed : p.needs actor ≠ some (n,.exclusive)) :
    SameBehind n p.lists p'.lists := by
  obtain ⟨hready,hbroken⟩ := hm.lists
  have hquiet (hw : p.write actor i = .nothing) : SameBehind n p.lists p'.lists := by
    rw [hw] at hready hbroken
    cases n with
    | ready => exact hready.symm
    | broken => exact hbroken.symm
  cases actor with
  | get call => exact hquiet rfl
  | cancel call => exact hquiet rfl
  | task id =>
    simp only [Pool.needs,Pool.write] at hneed hready hbroken hquiet
    generalize p.task id = t at hneed hready hbroken hquiet
    revert hneed hready hbroken hquiet
    fun_cases Task.write p.lists i t <;> intro hneed hready hbroken hquiet <;>
      first
      | exact hquiet rfl
      | cases n with
        | ready => first | exact absurd rfl hneed | exact hready.symm
        | broken => first | exact absurd rfl hneed | exact hbroken.symm

/-- A section that is over has written behind its own lock only, if at all. -/
theorem left_eq {p p' : Pool Channel} {actor : Actor} {i : Input Channel}
    (hm : p.Move actor i p') : left (p.needs actor) p.lists p'.lists = p'.lists := by
  match hneed : p.needs actor with
  | none | some (_,.exclusive) => rfl
  | some (n,.shared) => exact behind_eq (sameBehind_of_move hm (by simp [hneed]))

end Atomicity

/-- A world with its locks, and what each actor has copied when it was let in. -/
structure Copying (π Channel : Type) where
  guarded : Guarded π Channel
  copy : π → Actor → Lists Channel

namespace Copying

open Transition LockLine Tickets Atomicity

variable {π Channel : Type}

def init : Copying π Channel := ⟨Guarded.init,fun _ _ => Pool.init.lists⟩

variable [DecidableEq π]

def setLists (s : Guarded π Channel) (q : π) (lists : Lists Channel) : Guarded π Channel :=
  { s with world := { s.world with
      pool := Function.update s.world.pool q { s.world.pool q with lists := lists } } }

@[simp] theorem setLists_self (s : Guarded π Channel) (q : π) :
    setLists s q (s.world.pool q).lists = s := by
  simp [setLists]

/-- The state that the section of an actor works on. -/
def view (c : Copying π Channel) (q : π) (a : Actor) : Guarded π Channel :=
  let p := c.guarded.world.pool q
  setLists c.guarded q (behind (p.needs a) (c.copy q a) p.lists)

def step (c : Copying π Channel) : Access π Channel → Option (Copying π Channel)
  | .enter q n a => (c.guarded.step (.enter q n a)).map (fun s => ⟨s,Function.update c.copy q
      (Function.update (c.copy q) a (c.guarded.world.pool q).lists)⟩)
  | .turn l =>
    let p := c.guarded.world.pool l.pool
    ((c.view l.pool l.actor).step (.turn l)).map (fun s => { c with
      guarded := setLists s l.pool (left (p.needs l.actor) p.lists (s.world.pool l.pool).lists) })
  | e => (c.guarded.step e).map (fun s => { c with guarded := s })

/-- Nothing has changed behind a lock since an actor was let in. -/
def Current (c : Copying π Channel) : Prop :=
  ∀ q n a, (c.guarded.line q n).At .entered a →
    SameBehind n (c.copy q a) (c.guarded.world.pool q).lists

omit [DecidableEq π] in
theorem current_init : (init : Copying π Channel).Current := fun _ _ _ h =>
  absurd h.mem List.not_mem_nil

omit [DecidableEq π] in
/-- Only an actor that is in gets through its section. -/
theorem at_of_through {s : Guarded π Channel} {q : π} {a : Actor} {n : PoolLock} {mode : Mode}
    {lines : PoolLock → Line Actor} (h : s.through q a = some lines)
    (hneed : (s.world.pool q).needs a = some (n,mode)) : (s.line q n).At .entered a := by
  simp only [Guarded.through,hneed,Option.map_eq_some_iff] at h
  obtain ⟨l,hl,-⟩ := h
  exact (Line.finish_eq_some hl).1

/-- The lists are no matter for who gets through. -/
theorem through_view (c : Copying π Channel) (q : π) (a : Actor) :
    (c.view q a).through q a = c.guarded.through q a := by
  simp only [Guarded.through,view,setLists,Function.update_self]
  rfl

/-- Who gets through its section has seen what is there. -/
theorem view_of_through {c : Copying π Channel} (hc : c.Current) {q : π} {a : Actor}
    {lines : PoolLock → Line Actor} (h : c.guarded.through q a = some lines) :
    c.view q a = c.guarded := by
  have hsame : behind ((c.guarded.world.pool q).needs a) (c.copy q a)
      (c.guarded.world.pool q).lists = (c.guarded.world.pool q).lists := by
    match hneed : (c.guarded.world.pool q).needs a with
    | none => rfl
    | some (n,mode) => exact behind_eq (hc q n a (at_of_through h hneed))
  rw [view,hsame,setLists_self]

/-- A section on copies is a section of one step. -/
theorem guarded_step {c : Copying π Channel} (hc : c.Current) (e : Access π Channel) :
    (c.step e).map guarded = c.guarded.step e := by
  cases e with
  | request q a => simp [step,Function.comp_def]
  | enter q n a => simp [step,Function.comp_def]
  | leave q n a => simp [step,Function.comp_def]
  | turn l =>
    cases hthrough : c.guarded.through l.pool l.actor with
    | none =>
      have hview := through_view c l.pool l.actor
      simp [step,Guarded.step,hview,hthrough]
    | some lines =>
      rw [step,view_of_through hc hthrough]
      cases hs : c.guarded.step (.turn l) with
      | none => rfl
      | some s =>
        cases Guarded.step_passage hs with
        | @turn _ _ w _ hw hs' =>
          subst hs'
          have hleft := left_eq (World.step_move hw).2.2.1
          simp only [Option.map_some,Guarded.setLines_world,hleft]
          exact congrArg some (setLists_self _ l.pool)

/-- The copies after a step. -/
theorem copy_of_step {c c' : Copying π Channel} {e : Access π Channel} (h : c.step e = some c') :
    c'.copy = match e with
      | .enter q _ a => Function.update c.copy q
          (Function.update (c.copy q) a (c.guarded.world.pool q).lists)
      | _ => c.copy := by
  cases e <;> obtain ⟨s,-,rfl⟩ := Option.map_eq_some_iff.mp h <;> rfl

theorem at_setLine {s : Guarded π Channel} {q q' : π} {n m : PoolLock} {l : Line Actor}
    {stage : Stage} {a : Actor} (h : ((s.setLine q' m l).line q n).At stage a) :
    (q = q' ∧ n = m ∧ l.At stage a) ∨ (s.line q n).At stage a := by
  by_cases hq : q = q'
  · subst hq
    by_cases hn : n = m
    · subst hn
      exact .inl ⟨rfl,rfl,by simpa [Guarded.setLine] using h⟩
    · exact .inr (by simpa [Guarded.setLine,Function.update_of_ne hn] using h)
  · exact .inr (by simpa [Guarded.setLine,Guarded.setLines_line_of_ne hq] using h)

/-- Sections are kept apart, so nothing changes behind a lock while an actor is in. -/
theorem current_step {c c' : Copying π Channel} {e : Access π Channel} (hc : c.Current)
    (hk : Kept c.guarded) (h : c.step e = some c') : c'.Current := by
  have hcopy := copy_of_step h
  have hstep : c.guarded.step e = some c'.guarded := by
    rw [← guarded_step hc e,h]
    rfl
  intro q n a hat
  cases Guarded.step_passage hstep with
  | @request q' a' m mode l hneed hfree hl hs =>
    rw [hs] at hat ⊢
    rw [hcopy]
    rcases at_setLine hat with ⟨rfl,rfl,t,ht,ha,hentered⟩ | hold
    · rw [(Line.request_eq_some hl).2,List.mem_append,List.mem_singleton] at ht
      rcases ht with ht | rfl
      · exact hc q n a ⟨t,ht,ha,hentered⟩
      · cases hentered
    · exact hc q n a hold
  | @leave q' a' m l hl hs =>
    rw [hs] at hat ⊢
    rw [hcopy]
    rcases at_setLine hat with ⟨rfl,rfl,t,ht,ha,hentered⟩ | hold
    · rw [(Line.leave_eq_some hl).2,Line.mem_forget] at ht
      exact hc q n a ⟨t,ht.1,ha,hentered⟩
    · exact hc q n a hold
  | @enter q' a' m l hl hs =>
    rw [hs] at hat ⊢
    rw [hcopy]
    by_cases hself : q = q' ∧ a = a'
    · obtain ⟨rfl,rfl⟩ := hself
      simp only [Function.update_self]
      exact SameBehind.refl n (c.guarded.world.pool q).lists
    · have hsame : Function.update c.copy q' (Function.update (c.copy q') a'
          (c.guarded.world.pool q').lists) q a = c.copy q a := by
        by_cases hq : q = q'
        · subst hq
          simp [Function.update_of_ne (fun ha => hself ⟨rfl,ha⟩)]
        · simp [Function.update_of_ne hq]
      simp only [hsame]
      rcases at_setLine hat with ⟨rfl,rfl,t,ht,ha,hentered⟩ | hold
      · rw [(Line.enter_eq_some hl).2,Line.mem_mark] at ht
        rcases ht with ⟨ht,-⟩ | ⟨u,-,hu,rfl⟩
        · exact hc q n a ⟨t,ht,ha,hentered⟩
        · exact absurd ⟨rfl,ha.symm.trans hu⟩ hself
      · exact hc q n a hold
  | @turn l lines w hthrough hw hs =>
    rw [hs] at hat ⊢
    rw [hcopy]
    obtain ⟨-,-,hm,hother⟩ := World.step_move hw
    by_cases hq : q = l.pool
    · subst hq
      simp only [Guarded.setLines_line] at hat
      obtain ⟨t,ht,rfl,hentered⟩ := hat
      obtain ⟨hmem,-⟩ := Line.mem_forget.mp ht
      obtain ⟨hne,hold⟩ | ⟨-,hleaving,-⟩ := (hk.ticketed l.pool).mem_through hthrough hmem
      · have hin : (c.guarded.line l.pool n).At .entered t.agent := ⟨t,hold,rfl,hentered⟩
        have hneed : (c.guarded.world.pool l.pool).needs l.actor ≠ some (n,.exclusive) := by
          intro hneed
          exact hne (hk.alone (at_of_through hthrough hneed) hneed (.inl hin))
        exact (hc l.pool n t.agent hin).trans (sameBehind_of_move hm hneed)
      · cases hentered.symm.trans hleaving
    · rw [Guarded.setLines_line_of_ne hq] at hat
      simpa [hother q hq] using hc q n a hat

/-- With their copies, actors do what they do when sections are single steps. -/
theorem guarded_of_run {es : List (Access π Channel)} {c : Copying π Channel} (hc : c.Current)
    (hk : Kept c.guarded) : (run step c es).map guarded = run Guarded.step c.guarded es := by
  induction es generalizing c with
  | nil => rfl
  | cons e es ih =>
    have hstep := guarded_step hc e
    cases h : c.step e with
    | none =>
      rw [h] at hstep
      simp [run,h,← hstep]
    | some c' =>
      rw [h] at hstep
      have hnext := ih (current_step hc hk h) (hk.step hstep.symm)
      simp only [run,h,← hstep,Option.map_some,Option.bind_some,hnext]

/-- A section may read when its lock is granted and write when it ends, with the sections and
the requests of all others in between: what is seen of the pools is the same as if every
section were one step, run by run and in the same order. -/
theorem atomic_iff {ls : List (Label π Channel)} {w : World π Channel} :
    (∃ es c, es.filterMap Access.label = ls ∧ run step init es = some c ∧ c.guarded.world = w) ↔
      run World.step World.init ls = some w := by
  constructor
  · rintro ⟨es,c,rfl,hr,rfl⟩
    have hguarded : (run step init es).map guarded = run Guarded.step Guarded.init es :=
      guarded_of_run (c := (init : Copying π Channel)) current_init kept_init
    rw [hr] at hguarded
    exact Guarded.world_of_run hguarded.symm
  · intro hr
    obtain ⟨es,hes,hrun⟩ := Guarded.run_of_world hr
    have hguarded : (run step init es).map guarded = run Guarded.step Guarded.init es :=
      guarded_of_run (c := (init : Copying π Channel)) current_init kept_init
    have hfree : run Guarded.step Guarded.init es = some (Guarded.unlocked w) := hrun
    obtain ⟨c,hc,hw⟩ := Option.map_eq_some_iff.mp (hguarded.trans hfree)
    exact ⟨es,c,hes,hc,by rw [hw]; rfl⟩

end Copying
end SodaPool
