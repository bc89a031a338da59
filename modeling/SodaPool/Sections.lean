import SodaPool.LockLine
import SodaPool.Moves

/-!
# The critical sections, with the locks around them

A step of a world that touches one of the two lists is a critical section. Here its lock is
asked for, taken and given back in steps of their own, among those of everybody else: the
ready list is behind a reader-writer lock, the heap behind a mutex. The guard outlives the
section by a step, as it does where the source drops it by hand.
-/

namespace SodaPool

open LockLine Transition

variable {π Channel : Type}

inductive PoolLock
  | ready
  | broken
  deriving DecidableEq

instance (call : ℕ) (a : Actor) : Decidable (a.Serves call) :=
  match a with
  | .get call' => inferInstanceAs (Decidable (call' = call))
  | .task (.future call' _) => inferInstanceAs (Decidable (call' = call))
  | .task .dns | .task .doctor | .task (.report _ _) | .cancel _ => isFalse id

/-- The lock that the next step of a task is behind. -/
def Task.needs : Task Channel → Option (PoolLock × Mode)
  | .checkDns (.find _ _) => some (.ready,.shared)
  | .checkDns (.getAddress _ _) => some (.broken,.exclusive)
  | .checkDns (.replaceReady _) => some (.ready,.exclusive)
  | .checkDns (.replaceBroken _) => some (.broken,.exclusive)
  | .recheck (.add _ _) => some (.ready,.exclusive)
  | .recheck (.insert _) => some (.broken,.exclusive)
  | .report (.remove _) => some (.ready,.exclusive)
  | .report (.insert _) => some (.broken,.exclusive)
  | .nextBroken .lock => some (.broken,.exclusive)
  | .getAny => some (.ready,.shared)
  | _ => none

/-- The lock that the next step of a call is behind. -/
def GetChannel.needs : GetChannel Channel → Option (PoolLock × Mode)
  | .start | .getAnyLocked | .getAnyLast => some (.ready,.shared)
  | .snapshot => some (.broken,.exclusive)
  | _ => none

namespace Pool

def needs (p : Pool Channel) : Actor → Option (PoolLock × Mode)
  | .task id => (p.task id).needs
  | .get call => (p.get call).needs
  | .cancel _ => none

/-- Who is dropped by the step of an actor. A future that completes has given its guard back
at the end of `get_any`. -/
def gone (p : Pool Channel) (actor a : Actor) : Bool :=
  match actor with
  | .task (.future call number) =>
    match p.task (.future call number) with
    | .getAny => decide (a.Serves call ∧ a ≠ .get call)
    | _ => false
  | .cancel call => decide (a.Serves call)
  | _ => false

end Pool

/-- A world and the locks of its pools. -/
structure Guarded (π Channel : Type) where
  world : World π Channel
  line : π → PoolLock → Line Actor

/-- A lock is asked for, taken or given back, or the world takes a step. -/
inductive Access (π Channel : Type)
  | request (pool : π) (actor : Actor)
  | enter (pool : π) (lock : PoolLock) (actor : Actor)
  | turn (l : Label π Channel)
  | leave (pool : π) (lock : PoolLock) (actor : Actor)

namespace Access

/-- Who takes the step. -/
def actor : Access π Channel → π × Actor
  | .request q a => (q,a)
  | .enter q _ a => (q,a)
  | .turn l => (l.pool,l.actor)
  | .leave q _ a => (q,a)

/-- The steps of the world are all that is seen without the locks. -/
def label : Access π Channel → Option (Label π Channel)
  | .turn l => some l
  | _ => none

end Access

namespace Guarded

def init : Guarded π Channel := ⟨World.init,fun _ _ => Line.free⟩

/-- The actor has no ticket in its pool. -/
def Free (s : Guarded π Channel) (q : π) (a : Actor) : Prop := ∀ n, a ∉ (s.line q n).agents

theorem free_iff {s : Guarded π Channel} {q : π} {a : Actor} :
    s.Free q a ↔ a ∉ (s.line q .ready).agents ∧ a ∉ (s.line q .broken).agents := by
  constructor
  · intro h
    exact ⟨h .ready,h .broken⟩
  · rintro ⟨hready,hbroken⟩ n
    cases n with
    | ready => exact hready
    | broken => exact hbroken

instance (s : Guarded π Channel) (q : π) (a : Actor) : Decidable (s.Free q a) :=
  decidable_of_iff _ free_iff.symm

/-- The locks of the pool once the actor is through with its section, if it has one. -/
def through (s : Guarded π Channel) (q : π) (a : Actor) : Option (PoolLock → Line Actor) :=
  match (s.world.pool q).needs a with
  | none => if s.Free q a then some (s.line q) else none
  | some (n,_) => ((s.line q n).finish a).map (Function.update (s.line q) n)

variable [DecidableEq π]

def setLines (s : Guarded π Channel) (q : π) (lines : PoolLock → Line Actor) : Guarded π Channel :=
  { s with line := Function.update s.line q lines }

def setLine (s : Guarded π Channel) (q : π) (n : PoolLock) (l : Line Actor) : Guarded π Channel :=
  s.setLines q (Function.update (s.line q) n l)

def step (s : Guarded π Channel) : Access π Channel → Option (Guarded π Channel)
  | .request q a =>
    match (s.world.pool q).needs a with
    | none => none
    | some (n,mode) =>
      if s.Free q a then ((s.line q n).request a mode).map (s.setLine q n) else none
  | .enter q n a => ((s.line q n).enter a).map (s.setLine q n)
  | .turn l =>
    (s.through l.pool l.actor).bind (fun lines => (s.world.step l).map (fun w =>
      { s with world := w }.setLines l.pool
        (fun n => (lines n).forget ((s.world.pool l.pool).gone l.actor))))
  | .leave q n a => ((s.line q n).leave a).map (s.setLine q n)

@[simp] theorem setLines_world (s : Guarded π Channel) (q : π) (lines : PoolLock → Line Actor) :
    (s.setLines q lines).world = s.world := rfl

@[simp] theorem setLines_line (s : Guarded π Channel) (q : π) (lines : PoolLock → Line Actor) :
    (s.setLines q lines).line q = lines := Function.update_self ..

theorem setLines_line_of_ne {q q' : π} (h : q' ≠ q) (s : Guarded π Channel)
    (lines : PoolLock → Line Actor) : (s.setLines q lines).line q' = s.line q' :=
  Function.update_of_ne h ..

/-- What a step does to the locks of its pool; only a turn is a step of the world. -/
inductive Passage (s s' : Guarded π Channel) : Access π Channel → Prop
  | request {q : π} {a : Actor} {n : PoolLock} {mode : Mode} {l : Line Actor} :
      (s.world.pool q).needs a = some (n,mode) → s.Free q a →
      (s.line q n).request a mode = some l → s' = s.setLine q n l → Passage s s' (.request q a)
  | enter {q : π} {a : Actor} {n : PoolLock} {l : Line Actor} :
      (s.line q n).enter a = some l → s' = s.setLine q n l → Passage s s' (.enter q n a)
  | turn {l : Label π Channel} {lines : PoolLock → Line Actor} {w : World π Channel} :
      s.through l.pool l.actor = some lines → s.world.step l = some w →
      s' = { s with world := w }.setLines l.pool
        (fun n => (lines n).forget ((s.world.pool l.pool).gone l.actor)) → Passage s s' (.turn l)
  | leave {q : π} {a : Actor} {n : PoolLock} {l : Line Actor} :
      (s.line q n).leave a = some l → s' = s.setLine q n l → Passage s s' (.leave q n a)

theorem step_passage {s s' : Guarded π Channel} {e : Access π Channel} (h : s.step e = some s') :
    Passage s s' e := by
  cases e with
  | request q a =>
    simp only [step] at h
    cases hn : (s.world.pool q).needs a with
    | none => simp [hn] at h
    | some need =>
      obtain ⟨n,mode⟩ := need
      simp only [hn,Option.ite_none_right_eq_some,Option.map_eq_some_iff] at h
      obtain ⟨hfree,l,hl,rfl⟩ := h
      exact .request hn hfree hl rfl
  | enter q n a =>
    obtain ⟨l,hl,rfl⟩ := Option.map_eq_some_iff.mp h
    exact .enter hl rfl
  | turn l =>
    obtain ⟨lines,hlines,h⟩ := Option.bind_eq_some_iff.mp h
    obtain ⟨w,hw,rfl⟩ := Option.map_eq_some_iff.mp h
    exact .turn hlines hw rfl
  | leave q n a =>
    obtain ⟨l,hl,rfl⟩ := Option.map_eq_some_iff.mp h
    exact .leave hl rfl

/-- Without the locks, a run is a run of the world. -/
theorem world_of_run {es : List (Access π Channel)} {s u : Guarded π Channel}
    (hr : run step s es = some u) :
    run World.step s.world (es.filterMap Access.label) = some u.world := by
  induction es generalizing s with
  | nil =>
    cases hr
    rfl
  | cons e es ih =>
    obtain ⟨t,ht,hu⟩ := run_cons_eq_some.mp hr
    cases step_passage ht with
    | turn hlines hw hs' =>
      subst hs'
      exact run_cons_eq_some.mpr ⟨_,hw,ih hu⟩
    | request hn hfree hl hs' =>
      subst hs'
      exact (ih hu :)
    | enter hl hs' =>
      subst hs'
      exact (ih hu :)
    | leave hl hs' =>
      subst hs'
      exact (ih hu :)

/-- Nobody has a ticket. -/
def unlocked (w : World π Channel) : Guarded π Channel := ⟨w,fun _ _ => Line.free⟩

omit [DecidableEq π] in
theorem free_unlocked (w : World π Channel) (q : π) (a : Actor) : (unlocked w).Free q a :=
  fun _ => List.not_mem_nil

/-- One ticket in one line. -/
def ticketed (w : World π Channel) (q : π) (n : PoolLock) (t : Ticket Actor) : Guarded π Channel :=
  (unlocked w).setLine q n (Line.single t)

theorem ticketed_line (w : World π Channel) (q : π) (n : PoolLock) (t : Ticket Actor) :
    (ticketed w q n t).line q n = Line.single t := by
  simp [ticketed,setLine]

theorem setLine_ticketed (w : World π Channel) (q : π) (n : PoolLock) (t u : Ticket Actor) :
    (ticketed w q n t).setLine q n (Line.single u) = ticketed w q n u := by
  simp [ticketed,setLine,setLines]

theorem setLine_free (w : World π Channel) (q : π) (n : PoolLock) (t : Ticket Actor) :
    (ticketed w q n t).setLine q n Line.free = unlocked w := by
  simp [ticketed,setLine,setLines,unlocked]

/-- What a turn leaves of the only ticket. -/
theorem forget_ticketed {w w' : World π Channel} {q : π} {n : PoolLock} {t u : Ticket Actor}
    {gone : Actor → Bool} :
    ({ ticketed w q n t with world := w' }.setLines q
      (fun m => ((ticketed w q n u).line q m).forget gone)) =
        if gone u.agent then unlocked w' else ticketed w' q n u := by
  have hlines (m : PoolLock) : ((ticketed w q n u).line q m).forget gone =
      if m = n then (if gone u.agent then Line.free else Line.single u) else Line.free := by
    by_cases hm : m = n
    · subst hm
      rw [ticketed_line,Line.forget_single,if_pos rfl]
    · simp [ticketed,setLine,unlocked,hm,Line.forget_free]
  simp only [hlines]
  cases gone u.agent with
  | true => simp [ticketed,unlocked,setLines,setLine]
  | false =>
    have hupdate : (fun m => if m = n then Line.single u else Line.free) =
        Function.update (fun _ : PoolLock => Line.free) n (Line.single u) := by
      funext m
      rw [Function.update_apply]
    simp [ticketed,unlocked,setLines,setLine,hupdate]

/-- With all locks free, a step of the world can be taken: lock, section and unlock. -/
theorem run_of_step {w w' : World π Channel} {l : Label π Channel} (h : w.step l = some w') :
    ∃ es, es.filterMap Access.label = [l] ∧ run step (unlocked w) es = some (unlocked w') := by
  obtain ⟨q,a,i⟩ := l
  have hfree := free_unlocked w q a
  have hw : (unlocked w).world = w := rfl
  cases hneed : (w.pool q).needs a with
  | none =>
    have hthrough : (unlocked w).through q a = some (fun _ => Line.free) := by
      simp only [through]
      rw [hw,hneed,if_pos hfree]
      rfl
    have hturn : (unlocked w).step (.turn ⟨q,a,i⟩) = some (unlocked w') := by
      rw [step,hthrough,Option.bind_some,hw,h]
      simp [setLines,unlocked,Line.forget_free]
    exact ⟨[.turn ⟨q,a,i⟩],rfl,by rw [run,hturn]; rfl⟩
  | some need =>
    obtain ⟨n,mode⟩ := need
    have hrequest : (unlocked w).step (.request q a) = some (ticketed w q n ⟨a,mode,.waiting⟩) := by
      simp only [step]
      rw [hw,hneed]
      simp only
      rw [if_pos hfree,show (unlocked w).line q n = Line.free from rfl,Line.request_free]
      rfl
    have henter : (ticketed w q n ⟨a,mode,.waiting⟩).step (.enter q n a) =
        some (ticketed w q n ⟨a,mode,.entered⟩) := by
      rw [step,ticketed_line,Line.enter_single,Option.map_some,setLine_ticketed]
    have hthrough : (ticketed w q n ⟨a,mode,.entered⟩).through q a =
        some ((ticketed w q n ⟨a,mode,.leaving⟩).line q) := by
      simp only [through]
      rw [show (ticketed w q n ⟨a,mode,.entered⟩).world = w from rfl,hneed]
      simp only
      rw [ticketed_line,Line.finish_single]
      simp [ticketed,setLine]
    have hturn : (ticketed w q n ⟨a,mode,.entered⟩).step (.turn ⟨q,a,i⟩) =
        some (if (w.pool q).gone a a then unlocked w' else ticketed w' q n ⟨a,mode,.leaving⟩) := by
      rw [step,hthrough,Option.bind_some,show (ticketed w q n ⟨a,mode,.entered⟩).world = w from rfl,h,
        Option.map_some,forget_ticketed]
    have hleave : (ticketed w' q n ⟨a,mode,.leaving⟩).step (.leave q n a) = some (unlocked w') := by
      rw [step,ticketed_line,Line.leave_single,Option.map_some,setLine_free]
    by_cases hgone : (w.pool q).gone a a
    · rw [if_pos hgone] at hturn
      refine ⟨[.request q a,.enter q n a,.turn ⟨q,a,i⟩],rfl,?_⟩
      simp [run,hrequest,henter,hturn]
    · rw [if_neg hgone] at hturn
      refine ⟨[.request q a,.enter q n a,.turn ⟨q,a,i⟩,.leave q n a],rfl,?_⟩
      simp [run,hrequest,henter,hturn,hleave]

/-- The locks rule out no run: what a world can do, it can do with them. -/
theorem run_of_world {ls : List (Label π Channel)} {w w' : World π Channel}
    (hr : run World.step w ls = some w') :
    ∃ es, es.filterMap Access.label = ls ∧ run step (unlocked w) es = some (unlocked w') := by
  induction ls generalizing w with
  | nil =>
    cases hr
    exact ⟨[],rfl,rfl⟩
  | cons l ls ih =>
    obtain ⟨v,hv,hrest⟩ := run_cons_eq_some.mp hr
    obtain ⟨es,hes,hrun⟩ := run_of_step hv
    obtain ⟨fs,hfs,hrun'⟩ := ih hrest
    refine ⟨es ++ fs,?_,run_append.mpr ⟨_,hrun,hrun'⟩⟩
    rw [List.filterMap_append,hes,hfs]
    rfl

end Guarded
end SodaPool
