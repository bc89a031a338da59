import Mathlib.Data.Prod.Lex
import SodaPool.Tickets

/-!
# No deadlock

A call of `get_channel` holds the lock of the forced recheck while its futures take the
other two, but a section of those two asks for nothing. So who waits for whom is ranked:
sections, then tasks in a line, then calls that select, then the queue of the forced
recheck. Connection attempts are steps, so they are taken to end.
-/

namespace SodaPool
namespace Deadlock

open Transition LockLine Tickets
open FairLock.RwLock (Role Agrees)

variable {π Channel : Type} [DecidableEq π]

/-- Who waits for whom. A line and the queue of the forced recheck wait for those ahead and
those who are in; a call that selects waits for its futures, and holds no guard of the two
lists any more. -/
inductive Waits (s : Guarded π Channel) : π × Actor → π × Actor → Prop
  | line {q : π} {n : PoolLock} {a b : Actor} : (s.line q n).Behind a b → Waits s (q,a) (q,b)
  | select {q : π} {call number n : ℕ} : (s.world.pool q).get call = .select n →
      s.Free q (.get call) → ¬ ((s.world.pool q).task (.future call number)).Settled →
      Waits s (q,.get call) (q,.task (.future call number))
  | recheck {q : π} {call : ℕ} {d : π × ℕ} : role ((s.world.pool q).get call) = .queued →
      (d ∈ s.world.recheck.lock.readers ∨ s.world.recheck.lock.writer = some d ∨
        d ∈ s.world.recheck.lock.waiting.takeWhile (· ≠ (q,call))) →
      Waits s (q,.get call) (d.1,.get d.2)

/-- Some step of the actor is enabled, if the environment answers. -/
def CanMove (s : Guarded π Channel) (x : π × Actor) : Prop :=
  ∃ e s', e.actor = x ∧ s.step e = some s'

/-- The actor waits for one of the three locks. -/
def WaitsForLock (s : Guarded π Channel) (x : π × Actor) : Prop :=
  (∃ n, (s.line x.1 n).At .waiting x.2) ∨
    ∃ call, x.2 = .get call ∧ role ((s.world.pool x.1).get call) = .queued

/-- A call that waits for its futures. -/
def Selects (s : Guarded π Channel) (q : π) (call : ℕ) : Prop :=
  (∃ n, (s.world.pool q).get call = .select n) ∧ s.Free q (.get call)

open Classical in
/-- How far an actor without a ticket is from a section. -/
noncomputable def level (s : Guarded π Channel) (q : π) : Actor → ℕ ×ₗ ℕ
  | .get call =>
    if role ((s.world.pool q).get call) = .queued then
      toLex (3,(s.world.recheck.lock.waiting.takeWhile (· ≠ (q,call))).length)
    else if Selects s q call then toLex (2,0)
    else toLex (0,0)
  | _ => toLex (0,0)

open Classical in
/-- How far an actor is from a section. -/
noncomputable def rank (s : Guarded π Channel) (x : π × Actor) : ℕ ×ₗ ℕ :=
  if (s.line x.1 .ready).At .waiting x.2 then toLex (1,(s.line x.1 .ready).place x.2)
  else if (s.line x.1 .broken).At .waiting x.2 then toLex (1,(s.line x.1 .broken).place x.2)
  else level s x.1 x.2

section Rank

variable {s : Guarded π Channel} {q : π} {n : PoolLock} {a : Actor} {call : ℕ}

theorem rank_of_waiting (hs : Kept s) (h : (s.line q n).At .waiting a) :
    rank s (q,a) = toLex (1,(s.line q n).place a) := by
  cases n with
  | ready => exact if_pos h
  | broken =>
    have hready : ¬ (s.line q .ready).At .waiting a := by
      intro hready
      cases (hs.ticketed q).one a _ _ hready.mem h.mem
    exact (if_neg hready).trans (if_pos h)

theorem rank_of_not_waiting (h : ∀ n, ¬ (s.line q n).At .waiting a) : rank s (q,a) = level s q a :=
  (if_neg (h .ready)).trans (if_neg (h .broken))

theorem level_of_holds (hs : Kept s) (h : (s.line q n).Holds a) : level s q a = toLex (0,0) := by
  cases a with
  | get call =>
    have hselects : ¬ Selects s q call := fun hsel => hsel.2 n h.mem
    rw [level,if_neg (role_of_holds hs h),if_neg hselects]
  | task id => rfl
  | cancel call => rfl

theorem level_lt_of_role (h : role ((s.world.pool q).get call) ≠ .queued) (k : ℕ) :
    level s q (.get call) < toLex (3,k) := by
  rw [level,if_neg h]
  split <;> exact Prod.Lex.toLex_lt_toLex.mpr (.inl (by simp))

theorem level_of_queued (h : role ((s.world.pool q).get call) = .queued) :
    level s q (.get call) =
      toLex (3,(s.world.recheck.lock.waiting.takeWhile (· ≠ (q,call))).length) := if_pos h

/-- Whatever its program point, an actor of a line is nearer to a section than one of level `k`. -/
theorem rank_lt (hs : Kept s) {k m : ℕ} (hk : 1 < k) (h : level s q a < toLex (k,m)) :
    rank s (q,a) < toLex (k,m) := by
  by_cases hw : ∃ n, (s.line q n).At .waiting a
  · obtain ⟨n,hw⟩ := hw
    rw [rank_of_waiting hs hw]
    exact Prod.Lex.toLex_lt_toLex.mpr (.inl hk)
  · rw [rank_of_not_waiting (not_exists.mp hw)]
    exact h

/-- Ranks fall from who waits to whom it waits for. -/
theorem rank_lt_of_waits (hs : Kept s) {x y : π × Actor} (h : Waits s x y) :
    rank s y < rank s x := by
  cases h with
  | @line q n a b hbehind =>
    rw [rank_of_waiting hs hbehind.waiting]
    rcases Line.mem_agents.mp hbehind.mem with hw | hholds
    · rw [rank_of_waiting hs hw]
      exact Prod.Lex.toLex_lt_toLex.mpr (.inr ⟨rfl,hbehind.place_lt⟩)
    · rw [rank_of_not_waiting (not_waiting_of_holds hs hholds),level_of_holds hs hholds]
      exact Prod.Lex.toLex_lt_toLex.mpr (.inl (by simp))
  | @select q call number n hsel hfree hlive =>
    have hrole : role ((s.world.pool q).get call) ≠ .queued := by simp [hsel,role]
    have hlevel : rank s (q,.get call) = toLex (2,0) := by
      rw [rank_of_not_waiting (fun n hw => hfree n hw.mem),level,if_neg hrole,
        if_pos ⟨⟨n,hsel⟩,hfree⟩]
    rw [hlevel]
    apply rank_lt hs (by simp)
    exact Prod.Lex.toLex_lt_toLex.mpr (.inl (by simp))
  | @recheck q call d hrole hd =>
    rw [rank_of_not_waiting (not_waiting_of_role hs hrole),level_of_queued hrole]
    apply rank_lt hs (by simp)
    rcases hd with hreads | hwrites | hahead
    · have hd := (hs.recheck.readers d).mp hreads
      exact level_lt_of_role (by rw [roles] at hd; simp [hd]) _
    · have hd := (hs.recheck.writer d).mp hwrites
      exact level_lt_of_role (by rw [roles] at hd; simp [hd]) _
    · have hd := (hs.recheck.waiting d).mp (List.takeWhile_subset _ hahead)
      rw [level_of_queued hd]
      exact Prod.Lex.toLex_lt_toLex.mpr (.inr ⟨rfl,length_takeWhile_lt id hahead⟩)

end Rank

section Progress

omit [DecidableEq π]

theorem task_step_of_needs {t : Task Channel} (hneed : t.needs ≠ none) (hany : t ≠ .getAny)
    (id : TaskId) (s : Lists Channel) (i : Input Channel) : ∃ r, t.step id s i = some r := by
  cases t with
  | checkDns c => exact ⟨_,rfl⟩
  | recheck r => exact ⟨_,rfl⟩
  | report r => exact ⟨_,rfl⟩
  | nextBroken n =>
    cases n with
    | lock =>
      simp only [Task.step,NextBroken.step]
      cases s.broken.nextRound i.now <;> exact ⟨_,rfl⟩
    | sleep deadline => exact absurd rfl hneed
    | wait => exact absurd rfl hneed
  | getAny => exact absurd rfl hany
  | idle => exact absurd rfl hneed
  | completed out => exact absurd rfl hneed

theorem stepTask_of_ne {p : Pool Channel} {id : TaskId} {i : Input Channel}
    (h : p.task id ≠ .getAny) : p.stepTask id i = ((p.task id).step id p.lists i).map (fun r =>
      { p with lists := r.1, task := Function.update p.task id r.2 }) := by
  unfold Pool.stepTask
  split
  · exact absurd ‹_› h
  · rfl

end Progress

section Progress

variable {s : Guarded π Channel} {q : π} {n : PoolLock} {a : Actor} {call : ℕ}

/-- A section waits for nothing: no clock, no answer, no connection. -/
theorem step_of_needs (hs : Kept s) (hneed : (s.world.pool q).needs a ≠ none) {i : Input Channel}
    (hi : s.world.clock ≤ i.now) : ∃ w, s.world.step ⟨q,a,i⟩ = some w := by
  have hturn : ∃ r p, s.world.turn ⟨q,a,i⟩ = some (r,p) := by
    cases a with
    | cancel call => exact absurd rfl hneed
    | get call =>
      simp only [World.turn,Pool.stepGet]
      cases hg : (s.world.pool q).get call <;>
        first | exact ⟨_,_,rfl⟩ | exact absurd (congrArg GetChannel.needs hg) hneed
    | task id =>
      simp only [World.turn,Option.map_eq_some_iff]
      by_cases hany : (s.world.pool q).task id = .getAny
      · obtain ⟨call,number,rfl⟩ := (hs.served q).last id hany
        have hsel : ∃ n, (s.world.pool q).get call = .select n := by
          by_contra hnone
          have hsettled := (hs.served q).orderly call number (not_exists.mp hnone)
          rw [hany] at hsettled
          exact hsettled
        obtain ⟨m,hm⟩ := hsel
        refine ⟨_,_,(s.world.pool q).yield call number,?_,rfl⟩
        simp [Pool.stepTask,hany,hm]
      · obtain ⟨r,hr⟩ := task_step_of_needs hneed hany id (s.world.pool q).lists i
        exact ⟨_,_,_,by rw [stepTask_of_ne hany,hr]; rfl,rfl⟩
  obtain ⟨r,p,hturn⟩ := hturn
  exact ⟨_,World.step_eq_some.mpr ⟨hi,r,p,hturn,rfl⟩⟩

/-- With its lock, an actor can take its section. -/
theorem turn_of_entered (hs : Kept s) (h : (s.line q n).At .entered a) {i : Input Channel}
    (hi : s.world.clock ≤ i.now) : ∃ s', s.step (.turn ⟨q,a,i⟩) = some s' := by
  obtain ⟨t,ht,rfl,hstage⟩ := h
  have hneed := (hs.ticketed q).needs n t ht (by simp [hstage])
  obtain ⟨w,hw⟩ := step_of_needs hs (a := t.agent) (by rw [hneed]; simp) hi
  have hfinish : ∃ l, (s.line q n).finish t.agent = some l := ⟨_,dif_pos ⟨t,ht,rfl,hstage⟩⟩
  obtain ⟨l,hl⟩ := hfinish
  have hthrough : s.through q t.agent = some (Function.update (s.line q) n l) := by
    simp only [Guarded.through,hneed,hl,Option.map_some]
  exact ⟨_,by rw [Guarded.step,hthrough,Option.bind_some,hw]; rfl⟩

/-- Before its guard is dropped, an actor goes nowhere else. -/
theorem turn_of_leaving (hs : Kept s) (h : (s.line q n).At .leaving a) (i : Input Channel) :
    s.step (.turn ⟨q,a,i⟩) = none := by
  have hthrough : s.through q a = none := by
    simp only [Guarded.through]
    cases hneed : (s.world.pool q).needs a with
    | none => exact if_neg (fun hfree => hfree n h.mem)
    | some need =>
      obtain ⟨m,mode⟩ := need
      have hnot : ¬ (s.line q m).At .entered a := by
        intro hentered
        obtain rfl := (hs.ticketed q).one a n m h.mem hentered.mem
        cases h.stage_eq hentered
      simp only [Option.map_eq_none_iff]
      exact dif_neg hnot
  rw [Guarded.step,hthrough]
  rfl

theorem turn_of_free (hfree : s.Free q a) (hneed : (s.world.pool q).needs a = none)
    {i : Input Channel} {w : World π Channel} (hw : s.world.step ⟨q,a,i⟩ = some w) :
    CanMove s (q,a) := by
  have hthrough : s.through q a = some (s.line q) := by
    simp only [Guarded.through,hneed]
    exact if_pos hfree
  exact ⟨.turn ⟨q,a,i⟩,_,rfl,by rw [Guarded.step,hthrough,Option.bind_some,hw]; rfl⟩

theorem request_of_free (hfree : s.Free q a) (hneed : (s.world.pool q).needs a ≠ none) :
    CanMove s (q,a) := by
  obtain ⟨⟨n,mode⟩,hneed⟩ := Option.ne_none_iff_exists'.mp hneed
  have hrequest : ∃ l, (s.line q n).request a mode = some l := ⟨_,dif_neg (hfree n)⟩
  obtain ⟨l,hl⟩ := hrequest
  have hstep : s.step (.request q a) = some (s.setLine q n l) := by
    simp only [Guarded.step,hneed,if_pos hfree,hl,Option.map_some]
  exact ⟨_,_,rfl,hstep⟩

/-- Somebody for whom others may have to wait. -/
def Live (s : Guarded π Channel) (x : π × Actor) : Prop :=
  (∃ n, x.2 ∈ (s.line x.1 n).agents) ∨
    (∃ call, x.2 = .get call ∧ ((s.world.pool x.1).get call).rank < 11) ∨
    ∃ call number, x.2 = .task (.future call number) ∧
      ¬ ((s.world.pool x.1).task (.future call number)).Settled

omit [DecidableEq π] in
theorem live_of_role {d : π × ℕ} (h : roles s.world d ≠ .out) : Live s (d.1,.get d.2) := by
  refine .inr (.inl ⟨d.2,rfl,?_⟩)
  rw [roles] at h
  cases hg : (s.world.pool d.1).get d.2 <;> simp_all [role,GetChannel.rank]

/-- Who has a ticket can use it, or somebody is ahead. -/
theorem live_of_ticket (hs : Kept s) (h : a ∈ (s.line q n).agents) :
    CanMove s (q,a) ∨ ∃ y, Live s y ∧ Waits s (q,a) y := by
  rcases Line.mem_agents.mp h with hwaiting | hentered | hleaving
  · rcases Line.enter_or_behind hwaiting with ⟨l,hl⟩ | ⟨b,hbehind⟩
    · exact .inl ⟨.enter q n a,_,rfl,by rw [Guarded.step,hl]; rfl⟩
    · exact .inr ⟨(q,b),.inl ⟨n,hbehind.mem⟩,.line hbehind⟩
  · obtain ⟨s',hs'⟩ := turn_of_entered hs hentered (i := { now := s.world.clock }) le_rfl
    exact .inl ⟨_,s',rfl,hs'⟩
  · exact .inl ⟨.leave q n a,_,rfl,by rw [Guarded.step,Line.leave,if_pos hleaving]; rfl⟩

/-- A future that is not done asks for a lock, looks the domain up or connects. -/
theorem live_of_future {number : ℕ} (hs : Kept s)
    (hlive : ¬ ((s.world.pool q).task (.future call number)).Settled)
    (hfree : s.Free q (.task (.future call number))) :
    CanMove s (q,.task (.future call number)) := by
  by_cases hneed : (s.world.pool q).needs (.task (.future call number)) = none
  · have hany : (s.world.pool q).task (.future call number) ≠ .getAny := by
      intro hany
      rw [Pool.needs,hany] at hneed
      cases hneed
    have hstep : ∃ r, ((s.world.pool q).task (.future call number)).step (.future call number)
        (s.world.pool q).lists { now := s.world.clock } = some r := by
      cases ht : (s.world.pool q).task (.future call number) with
      | checkDns c => exact ⟨_,rfl⟩
      | recheck r => exact ⟨_,rfl⟩
      | report r => exact ⟨_,rfl⟩
      | nextBroken n => exact absurd ht ((hs.served q).plain call number n)
      | getAny => exact absurd ht hany
      | idle => exact absurd (ht ▸ trivial) hlive
      | completed out => exact absurd (ht ▸ trivial) hlive
    obtain ⟨r,hr⟩ := hstep
    have hturn : ∃ p, s.world.turn ⟨q,.task (.future call number),{ now := s.world.clock }⟩ =
        some (s.world.recheck,p) :=
      ⟨_,by simp only [World.turn,stepTask_of_ne hany,hr,Option.map_some]; rfl⟩
    obtain ⟨p,hp⟩ := hturn
    exact turn_of_free hfree hneed (World.step_eq_some.mpr ⟨le_rfl,_,p,hp,rfl⟩)
  · exact request_of_free hfree hneed

/-- A call in flight goes on, or waits for its futures or for other calls. -/
theorem live_of_call (hs : Kept s) (hrank : ((s.world.pool q).get call).rank < 11)
    (hfree : s.Free q (.get call)) :
    CanMove s (q,.get call) ∨ ∃ y, Live s y ∧ Waits s (q,.get call) y := by
  have hmove (hneed : ((s.world.pool q).get call).needs = none)
      (h : ∃ r, (s.world.pool q).stepGet s.world.recheck q call s.world.clock = some r) :
      CanMove s (q,.get call) := by
    obtain ⟨r,hr⟩ := h
    exact turn_of_free hfree hneed (i := { now := s.world.clock })
      (World.step_eq_some.mpr ⟨le_rfl,r.1,r.2,hr,rfl⟩)
  have hqueue (hrole : role ((s.world.pool q).get call) = .queued)
      (hstep : ∀ lock, s.world.recheck.lock.acquire (q,call) = some lock →
        ∃ r, (s.world.pool q).stepGet s.world.recheck q call s.world.clock = some r)
      (hneed : ((s.world.pool q).get call).needs = none) :
      CanMove s (q,.get call) ∨ ∃ y, Live s y ∧ Waits s (q,.get call) y := by
    rcases hs.recheck.acquire_or_blocked (c := (q,call)) hrole with ⟨lock,hlock⟩ | ⟨d,hd⟩
    · exact .inl (hmove hneed (hstep lock hlock))
    · refine .inr ⟨_,live_of_role ?_,.recheck hrole hd⟩
      rcases hd with hreads | hwrites | hahead
      · simp [(hs.recheck.readers d).mp hreads]
      · simp [(hs.recheck.writer d).mp hwrites]
      · simp [(hs.recheck.waiting d).mp (List.takeWhile_subset _ hahead)]
  cases hg : (s.world.pool q).get call with
  | start | getAnyLocked | getAnyLast | snapshot =>
    refine .inl (request_of_free hfree ?_)
    simp [Pool.needs,hg,GetChannel.needs]
  | select n =>
    have hlive := (hs.served q).first call n hg
    exact .inr ⟨_,.inr (.inr ⟨call,0,rfl,hlive⟩),.select hg hfree hlive⟩
  | awaitWrite | awaitWait =>
    apply hqueue (by simp [hg,role]) (fun lock hlock => ?_) (by simp [hg,GetChannel.needs])
    exact ⟨_,by simp only [Pool.stepGet,hg,hlock,Option.map_some]; rfl⟩
  | tryRead =>
    refine .inl (hmove (by simp [hg,GetChannel.needs]) ?_)
    simp only [Pool.stepGet,hg]
    cases s.world.recheck.lock.tryRead (q,call) <;> exact ⟨_,rfl⟩
  | ageTest =>
    refine .inl (hmove (by simp [hg,GetChannel.needs]) ?_)
    simp only [Pool.stepGet,hg]
    split <;> exact ⟨_,rfl⟩
  | dropRead | requestWrite | stamp | release | requestWait | releaseWait =>
    refine .inl (hmove (by simp [hg,GetChannel.needs]) ?_)
    simp only [Pool.stepGet,hg]
    exact ⟨_,rfl⟩
  | cancelled => simp [hg,GetChannel.rank] at hrank
  | done out => simp [hg,GetChannel.rank] at hrank

theorem live_moves (hs : Kept s) {x : π × Actor} (hx : Live s x) :
    CanMove s x ∨ ∃ y, Live s y ∧ Waits s x y := by
  obtain ⟨q,a⟩ := x
  by_cases hfree : s.Free q a
  · rcases hx with ⟨n,hn⟩ | ⟨call,rfl,hrank⟩ | ⟨call,number,rfl,hlive⟩
    · exact absurd hn (hfree n)
    · exact live_of_call hs hrank hfree
    · exact .inl (live_of_future hs hlive hfree)
  · obtain ⟨n,hn⟩ := not_forall.mp hfree
    exact live_of_ticket hs (not_not.mp hn)

end Progress

/-- What a task that holds the lock of the ready list or of the heap has to do before it can
wait for anything: go through its section, whatever the environment says, and drop its guard. -/
def GoesOn (s : Guarded π Channel) (q : π) (n : PoolLock) (a : Actor) : Prop :=
  ((s.line q n).At .entered a → ∀ i : Input Channel, s.world.clock ≤ i.now →
      ∃ s', s.step (.turn ⟨q,a,i⟩) = some s') ∧
    ((s.line q n).At .leaving a → (∃ s', s.step (.leave q n a) = some s') ∧
      ∀ i, s.step (.turn ⟨q,a,i⟩) = none)

theorem not_waits_of_holds {s : Guarded π Channel} {q : π} {n : PoolLock} {a : Actor} (hs : Kept s)
    (h : (s.line q n).Holds a) (y : π × Actor) : ¬ Waits s (q,a) y := by
  intro hw
  cases hw with
  | line hbehind => exact not_waiting_of_holds hs h _ hbehind.waiting
  | select hsel hfree hlive => exact hfree n h.mem
  | recheck hrole hd => exact role_of_holds hs h hrole

/-- No deadlock. Who waits for the lock of the ready list or of the heap holds neither of the
two, who holds one of them waits for nothing, nobody waits for itself through others, and
everybody who waits for a lock waits in the end for somebody who can move. -/
theorem moves_of_run {es : List (Access π Channel)} {s : Guarded π Channel}
    (hr : run Guarded.step Guarded.init es = some s) :
    (∀ q n a, (s.line q n).At .waiting a → ∀ m, ¬ (s.line q m).Holds a) ∧
      (∀ q n a, (s.line q n).Holds a → (∀ y, ¬ Waits s (q,a) y) ∧ GoesOn s q n a) ∧
      (∀ x, ¬ Relation.TransGen (Waits s) x x) ∧
      ∀ x, WaitsForLock s x → ∃ y, Relation.ReflTransGen (Waits s) x y ∧ CanMove s y := by
  have hs := kept_of_run hr
  have hrank (x y : π × Actor) (h : Waits s x y) : rank s y < rank s x := rank_lt_of_waits hs h
  refine ⟨?_,?_,acyclic_of_rank hrank,?_⟩
  · intro q n a hwaiting m hholds
    exact not_waiting_of_holds hs hholds n hwaiting
  · intro q n a hholds
    refine ⟨not_waits_of_holds hs hholds,?_,?_⟩
    · intro hentered i hi
      exact turn_of_entered hs hentered hi
    · intro hleaving
      exact ⟨⟨_,by rw [Guarded.step,Line.leave,if_pos hleaving]; rfl⟩,turn_of_leaving hs hleaving⟩
  · intro x hx
    apply exists_moves_of_rank hrank (fun y hy => live_moves hs hy)
    rcases hx with ⟨n,hn⟩ | ⟨call,hcall,hrole⟩
    · exact .inl ⟨n,hn.mem⟩
    · obtain ⟨q,a⟩ := x
      cases hcall
      exact live_of_role (d := (q,call)) (by simp [roles,hrole])

/-- A report asks for the ready list while a call reads it. -/
def contended : List (Access Unit Unit) :=
  [.request () (.get 0),.request () (.task (.report 0 (.v4 1))),.enter () .ready (.get 0)]

theorem moves_contended : ∃ s : Guarded Unit Unit,
    run Guarded.step Guarded.init contended = some s ∧
      (s.line () .ready).At .waiting (.task (.report 0 (.v4 1))) ∧
      ∃ y, Relation.ReflTransGen (Waits s) ((),.task (.report 0 (.v4 1))) y ∧ CanMove s y := by
  have hr : ∃ s : Guarded Unit Unit, run Guarded.step Guarded.init contended = some s ∧
      (s.line () .ready).At .waiting (.task (.report 0 (.v4 1))) := ⟨_,rfl,by decide⟩
  obtain ⟨s,hs,hwaiting⟩ := hr
  exact ⟨s,hs,hwaiting,(moves_of_run hs).2.2.2 _ (.inl ⟨.ready,hwaiting⟩)⟩

end Deadlock
end SodaPool
