import SodaPool.Sections

/-!
# The locks and the program points

Each of the three locks knows who holds it and who waits for it by where these are in
their programs. A section of the ready list or of the heap is on its way through, and has
nothing to wait for; a call that has the lock of the forced recheck may still select.
-/

namespace SodaPool
namespace Tickets

open Transition LockLine
open FairLock.RwLock (Role Agrees)

variable {π Channel : Type}

/-- What a call has to do with the lock of the forced recheck. -/
def role : GetChannel Channel → Role
  | .ageTest | .dropRead => .reading
  | .awaitWrite | .awaitWait => .queued
  | .getAnyLocked | .stamp | .snapshot | .select _ | .release _ | .releaseWait => .writing
  | _ => .out

def roles (w : World π Channel) (c : π × ℕ) : Role := role ((w.pool c.1).get c.2)

/-- A call that selects has its `check_dns` or the `get_any` behind it in flight. Futures
alone end with a `get_any`, and none runs the loop of the doctor. -/
structure Served (p : Pool Channel) : Prop where
  orderly : p.Orderly
  first : ∀ call n, p.get call = .select n → ¬ (p.task (.future call 0)).Settled
  plain : ∀ call number n, p.task (.future call number) ≠ .nextBroken n
  last : ∀ id, p.task id = .getAny → ∃ call number, id = .future call number

theorem served_init : Served (Pool.init : Pool Channel) where
  orderly := Pool.orderly_init
  first call n h := by cases h
  plain call number n h := by cases h
  last id h := by cases id <;> cases h

/-- A future that moves is not done until its `get_any` is. -/
theorem future_step {call number : ℕ} {s : Lists Channel} {i : Input Channel} {t : Task Channel}
    {r : Lists Channel × Task Channel} (h : t.step (.future call number) s i = some r)
    (ht : ∀ n, t ≠ .nextBroken n) : ¬ r.2.Settled ∧ ∀ n, r.2 ≠ .nextBroken n := by
  obtain ⟨s',t'⟩ := r
  cases Task.taskStep_of_step h with
  | taken | waits => exact absurd rfl (ht _)
  | _ => simp [Task.Settled]

theorem future_of_step {id : TaskId} {s : Lists Channel} {i : Input Channel} {t : Task Channel}
    {lists : Lists Channel} (h : t.step id s i = some (lists,.getAny)) :
    ∃ call number, id = .future call number := by
  have hresume (hid : .getAny = (Task.resume id : Task Channel)) :
      ∃ call number, id = .future call number := by
    cases id with
    | future call number => exact ⟨call,number,rfl⟩
    | dns | doctor | report => cases hid
  generalize ht : (.getAny : Task Channel) = t' at h
  cases Task.taskStep_of_step h with
  | checkDnsEnds | add | reAdd | insert => exact hresume ht
  | checkDns | connected | refused | remove | taken | waits => cases ht

theorem Served.move {p p' : Pool Channel} {actor : Actor} {i : Input Channel} (hp : Served p)
    (h : p.Move actor i p') : Served p' := by
  refine ⟨h.orderly hp.orderly,?_,?_,?_⟩
  · intro call n hn
    cases h with
    | @task id i r hstep =>
      by_cases hid : TaskId.future call 0 = id
      · subst hid
        simpa using (future_step hstep (hp.plain call 0)).1
      · simpa [Function.update_of_ne hid] using hp.first call n hn
    | @yield call' number m i hget hsel =>
      by_cases hc : call = call'
      · subst hc
        simp [Pool.yield] at hn
      · simp only [Pool.yield,Function.update_of_ne hc,Pool.setFutures_future hc] at hn ⊢
        exact hp.first call n hn
    | @push call' i hg =>
      by_cases hc : call = call'
      · subst hc
        simp [Pool.push,Pool.pushed,Task.Settled]
      · simp only [Pool.push,Function.update_of_ne hc,Pool.setFutures_future hc] at hn ⊢
        exact hp.first call n hn
    | @call call' i g lists hready hbroken hs hsnap hg hrank =>
      by_cases hc : call = call'
      · subst hc
        exact absurd (by simpa using hn) (hg n)
      · simp only [Function.update_of_ne hc] at hn
        exact hp.first call n hn
    | @cancel call' i =>
      by_cases hc : call = call'
      · subst hc
        simp [Pool.cancel] at hn
      · simp only [Pool.cancel,Function.update_of_ne hc,Pool.setFutures_future hc] at hn ⊢
        exact hp.first call n hn
  · intro call number n hn
    rcases h.task_cases (.future call number) with hsame | hfresh | ⟨lists,-,hown⟩
    · exact hp.plain call number n (hsame ▸ hn)
    · rw [hn] at hfresh
      exact hfresh
    · exact (future_step hown (hp.plain call number)).2 n hn
  · intro id hid
    rcases h.task_cases id with hsame | hfresh | ⟨lists,-,hown⟩
    · exact hp.last id (hsame ▸ hid)
    · rw [hid] at hfresh
      exact hfresh.elim
    · exact future_of_step (hid ▸ hown)

section Recheck

variable [DecidableEq π]

/-- The lock of the forced recheck knows every call by its program point. -/
theorem stepGet_agrees {p p' : Pool Channel} {r r' : RecheckLock π} {me : π} {call now : ℕ}
    {f : π × ℕ → Role} (hr : Agrees r.lock f) (hf : f (me,call) = role (p.get call))
    (h : p.stepGet r me call now = some (r',p')) :
    Agrees r'.lock (Function.update f (me,call) (role (p'.get call))) := by
  have hsame {lock : FairLock.RwLock (π × ℕ)} (hl : lock = r.lock) {g : GetChannel Channel}
      (hg : role g = role (p.get call)) : Agrees lock (Function.update f (me,call) (role g)) := by
    rwa [hl,hg,← hf,Function.update_eq_self]
  have hstep := Pool.stepGet_eq_some.mp h
  generalize hg : p.get call = g at hstep
  cases hstep with
  | start | getAnyLocked =>
    apply hsame rfl
    simp only [Pool.getAny,Function.update_self,hg]
    split <;> rfl
  | tryRead ht => simpa [Pool.setGet,role] using hr.tryRead (by rw [hf,hg]; rfl) ht
  | busy | due | stamp => exact hsame rfl (by simp [Pool.setGet,hg,role])
  | recent | dropRead => simpa [Pool.setGet,role] using hr.releaseRead (by rw [hf,hg]; rfl)
  | requestWrite | requestWait => simpa [Pool.setGet,role] using hr.request (by rw [hf,hg]; rfl)
  | awaitWrite hl => simpa [Pool.setGet,role] using hr.acquire hl
  | awaitWait hl => simpa [Pool.setGet,role] using hr.acquire hl
  | snapshot => exact hsame rfl (by simp [Pool.push,hg,role])
  | release | releaseWait =>
    simpa [Pool.setGet,role] using hr.releaseWrite (by rw [hf,hg]; rfl)
  | getAnyLast => exact hsame rfl (by simp [Pool.getAny,hg,role])

/-- A future that completes leaves its call with the guard. -/
theorem role_of_task {p p' : Pool Channel} {id : TaskId} {i : Input Channel}
    (h : p.Move (.task id) i p') (call : ℕ) : role (p'.get call) = role (p.get call) := by
  cases h with
  | task hstep => rfl
  | @yield call' number n i hget hsel =>
    by_cases hc : call = call'
    · subst hc
      simp [Pool.yield,hsel,role]
    · simp [Pool.yield,Function.update_of_ne hc]

theorem stepCancel_eq_some {p p' : Pool Channel} {r r' : RecheckLock π} {me : π} {call : ℕ}
    (h : p.stepCancel r me call = some (r',p')) :
    r'.lock = r.lock.forget (me,call) ∧ p' = p.cancel call := by
  cases hg : p.get call with
  | awaitWrite | getAnyLocked | snapshot | select | awaitWait | getAnyLast =>
    simp only [Pool.stepCancel,hg,Option.some.injEq,Prod.mk.injEq] at h
    obtain ⟨rfl,rfl⟩ := h
    exact ⟨rfl,rfl⟩
  | start | tryRead | ageTest | dropRead | requestWrite | stamp | release | requestWait
  | releaseWait | cancelled | done => simp [Pool.stepCancel,hg] at h

theorem agrees_step {w w' : World π Channel} {l : Label π Channel}
    (hw : Agrees w.recheck.lock (roles w)) (h : w.step l = some w') :
    Agrees w'.recheck.lock (roles w') := by
  obtain ⟨q,actor,i⟩ := l
  obtain ⟨-,-,hm,hother⟩ := World.step_move h
  have hroles (call : ℕ) (hget : ∀ c, c ≠ call → role ((w'.pool q).get c) = role ((w.pool q).get c)) :
      roles w' = Function.update (roles w) (q,call) (role ((w'.pool q).get call)) := by
    funext c
    obtain ⟨q',c⟩ := c
    by_cases hq : q' = q
    · subst hq
      by_cases hc : c = call
      · subst hc
        simp [roles]
      · rw [Function.update_of_ne (by simp [hc])]
        exact hget c hc
    · rw [Function.update_of_ne (by simp [hq])]
      simp only [roles,hother q' hq]
  cases actor with
  | task id =>
    have hsame : roles w' = roles w := by
      rw [hroles 0 (fun c _ => role_of_task hm c),role_of_task hm 0]
      exact Function.update_eq_self _ _
    rw [World.recheck_of_step h,hsame]
    exact hw
  | get call =>
    rw [hroles call (fun c hc => congrArg role (hm.get_of_not_serves (fun h => hc h.symm) (by simp)))]
    exact stepGet_agrees hw rfl (World.stepGet_of_step h)
  | cancel call =>
    obtain ⟨-,r,p,hturn,rfl⟩ := World.step_eq_some.mp h
    obtain ⟨hlock,rfl⟩ := stepCancel_eq_some hturn
    have hget (c : ℕ) (hc : c ≠ call) : role ((Function.update w.pool q
        ((w.pool q).cancel call) q).get c) = role ((w.pool q).get c) := by
      simp [Pool.cancel,hc]
    rw [hroles call hget,hlock]
    simpa [Pool.cancel,role] using hw.forget

omit [DecidableEq π] in
theorem agrees_init : Agrees (World.init : World π Channel).recheck.lock
    (roles (World.init : World π Channel)) :=
  Agrees.free (fun _ => rfl)

theorem agrees_of_run {ls : List (Label π Channel)} {u : World π Channel}
    (hr : run World.step World.init ls = some u) : Agrees u.recheck.lock (roles u) :=
  run_invariant (I := fun u : World π Channel => Agrees u.recheck.lock (roles u))
    (P := fun _ _ => True) (fun _ _ _ hw _ h => agrees_step hw h) agrees_init
    (along_of_forall (fun _ _ _ => trivial) _) hr

end Recheck

/-- The locks of a pool against the program points. An actor has at most one ticket. Before
it has been through, its section is still ahead of it; a call whose guard is still held has
not gone on to wait. -/
structure Ticketed (p : Pool Channel) (line : PoolLock → Line Actor) : Prop where
  one : ∀ a n n', a ∈ (line n).agents → a ∈ (line n').agents → n = n'
  needs : ∀ n, ∀ t ∈ (line n).tickets, t.stage ≠ .leaving → p.needs t.agent = some (n,t.mode)
  past : ∀ n call, (line n).At .leaving (.get call) → role (p.get call) ≠ .queued

namespace Ticketed

variable {p p' : Pool Channel} {line : PoolLock → Line Actor} {n : PoolLock} {a : Actor}
  {l : Line Actor}

theorem init (p : Pool Channel) : Ticketed p (fun _ => Line.free) where
  one _ _ _ h := absurd h List.not_mem_nil
  needs _ _ h := absurd h List.not_mem_nil
  past _ _ h := absurd h.mem List.not_mem_nil

/-- The rule for a change of one line by its agents: nobody new, and only who was waiting is
let in. -/
theorem update (h : Ticketed p line)
    (hl : ∀ t' ∈ l.tickets, ∃ t ∈ (line n).tickets, t'.agent = t.agent ∧ t'.mode = t.mode ∧
      (t'.stage = t.stage ∨ t.stage = .waiting ∧ t'.stage = .entered)) :
    Ticketed p (Function.update line n l) := by
  have hold (m : PoolLock) (t' : Ticket Actor) (ht' : t' ∈ (Function.update line n l m).tickets) :
      ∃ t ∈ (line m).tickets, t'.agent = t.agent ∧ t'.mode = t.mode ∧
        (t'.stage = t.stage ∨ t.stage = .waiting ∧ t'.stage = .entered) := by
    by_cases hm : m = n
    · subst hm
      exact hl t' (by simpa using ht')
    · rw [Function.update_of_ne hm] at ht'
      exact ⟨t',ht',rfl,rfl,.inl rfl⟩
  have hagents (m : PoolLock) (b : Actor) (hb : b ∈ (Function.update line n l m).agents) :
      b ∈ (line m).agents := by
    obtain ⟨t',ht',rfl⟩ := List.mem_map.mp hb
    obtain ⟨t,ht,hagent,-⟩ := hold m t' ht'
    exact hagent ▸ List.mem_map_of_mem ht
  refine ⟨fun b m m' hb hb' => h.one b m m' (hagents m b hb) (hagents m' b hb'),?_,?_⟩
  · intro m t' ht' hstage
    obtain ⟨t,ht,hagent,hmode,hsame | ⟨hwaiting,-⟩⟩ := hold m t' ht'
    · rw [hagent,hmode]
      exact h.needs m t ht (hsame ▸ hstage)
    · rw [hagent,hmode]
      exact h.needs m t ht (by simp [hwaiting])
  · rintro m call ⟨t',ht',hcall,hstage⟩
    obtain ⟨t,ht,hagent,-,hsame | ⟨-,hentered⟩⟩ := hold m t' ht'
    · exact h.past m call ⟨t,ht,hagent ▸ hcall,hsame ▸ hstage⟩
    · rw [hstage] at hentered
      cases hentered

theorem enter (h : Ticketed p line) (hl : (line n).enter a = some l) :
    Ticketed p (Function.update line n l) := by
  obtain ⟨⟨u,hu,hagent,hwaiting⟩,htickets⟩ := Line.enter_eq_some hl
  apply h.update
  intro t' ht'
  rw [htickets,Line.mem_mark] at ht'
  rcases ht' with ⟨ht,-⟩ | ⟨t,ht,ha,rfl⟩
  · exact ⟨t',ht,rfl,rfl,.inl rfl⟩
  · obtain rfl := Line.eq_of_agent_eq ht hu (ha.trans hagent.symm)
    exact ⟨t,ht,rfl,rfl,.inr ⟨hwaiting,rfl⟩⟩

theorem leave (h : Ticketed p line) (hl : (line n).leave a = some l) :
    Ticketed p (Function.update line n l) := by
  obtain ⟨-,rfl⟩ := Line.leave_eq_some hl
  apply h.update
  intro t' ht'
  exact ⟨t',(Line.mem_forget.mp ht').1,rfl,rfl,.inl rfl⟩

theorem request {mode : Mode} (h : Ticketed p line) (hneed : p.needs a = some (n,mode))
    (hfree : ∀ m, a ∉ (line m).agents) (hl : (line n).request a mode = some l) :
    Ticketed p (Function.update line n l) := by
  obtain ⟨-,htickets⟩ := Line.request_eq_some hl
  have hold (m : PoolLock) (t : Ticket Actor) (ht : t ∈ (Function.update line n l m).tickets) :
      t ∈ (line m).tickets ∨ m = n ∧ t = ⟨a,mode,.waiting⟩ := by
    by_cases hm : m = n
    · subst hm
      simpa [htickets] using ht
    · rw [Function.update_of_ne hm] at ht
      exact .inl ht
  have hagents (m : PoolLock) (b : Actor) (hb : b ∈ (Function.update line n l m).agents) :
      b ∈ (line m).agents ∨ m = n ∧ b = a := by
    obtain ⟨t,ht,rfl⟩ := List.mem_map.mp hb
    rcases hold m t ht with ht | ⟨hm,rfl⟩
    · exact .inl (List.mem_map_of_mem ht)
    · exact .inr ⟨hm,rfl⟩
  refine ⟨fun b m m' hb hb' => ?_,fun m t ht hstage => ?_,?_⟩
  · rcases hagents m b hb with hm | ⟨hm,ha⟩ <;> rcases hagents m' b hb' with hm' | ⟨hm',ha'⟩
    · exact h.one b m m' hm hm'
    · exact absurd hm (ha' ▸ hfree m)
    · exact absurd hm' (ha ▸ hfree m')
    · exact hm.trans hm'.symm
  · rcases hold m t ht with ht | ⟨rfl,rfl⟩
    · exact h.needs m t ht hstage
    · exact hneed
  · rintro m call ⟨t,ht,hcall,hstage⟩
    rcases hold m t ht with ht | ⟨-,rfl⟩
    · exact h.past m call ⟨t,ht,hcall,hstage⟩
    · cases hstage

/-- Who is through with a section still holds its lock, and nobody else has moved. -/
theorem mem_through {s : Guarded π Channel} {q : π} {lines : PoolLock → Line Actor}
    (h : Ticketed (s.world.pool q) (s.line q)) (hlines : s.through q a = some lines)
    {t : Ticket Actor} (ht : t ∈ (lines n).tickets) :
    (t.agent ≠ a ∧ t ∈ (s.line q n).tickets) ∨
      t.agent = a ∧ t.stage = .leaving ∧ (s.world.pool q).needs a ≠ none ∧
        a ∈ (s.line q n).agents := by
  simp only [Guarded.through] at hlines
  cases hneed : (s.world.pool q).needs a with
  | none =>
    simp only [hneed,Option.ite_none_right_eq_some,Option.some.injEq] at hlines
    obtain ⟨hfree,rfl⟩ := hlines
    refine .inl ⟨?_,ht⟩
    rintro rfl
    exact hfree n (List.mem_map_of_mem ht)
  | some need =>
    obtain ⟨m,mode⟩ := need
    simp only [hneed,Option.map_eq_some_iff] at hlines
    obtain ⟨l,hl,rfl⟩ := hlines
    obtain ⟨hat,htickets⟩ := Line.finish_eq_some hl
    by_cases hn : n = m
    · subst hn
      rw [Function.update_self,htickets,Line.mem_mark] at ht
      rcases ht with ⟨ht,hne⟩ | ⟨u,hu,rfl,rfl⟩
      · exact .inl ⟨hne,ht⟩
      · exact .inr ⟨rfl,rfl,by simp,List.mem_map_of_mem hu⟩
    · rw [Function.update_of_ne hn] at ht
      refine .inl ⟨?_,ht⟩
      rintro rfl
      exact hn (h.one t.agent n m (List.mem_map_of_mem ht) hat.mem)

end Ticketed

theorem needs_of_settled {t : Task Channel} (h : t.Settled) : t.needs = none := by
  cases t <;> first | rfl | exact h.elim

theorem role_of_needs {g : GetChannel Channel} (h : g.needs ≠ none) : role g ≠ .queued := by
  cases g <;> simp_all [GetChannel.needs,role]

theorem gone_of_drops {p : Pool Channel} {actor : Actor} {id : TaskId} (h : p.Drops actor id) :
    p.gone actor (.task id) = true := by
  cases actor with
  | task id' =>
    cases id' with
    | future call number =>
      cases id with
      | future call' number' =>
        obtain ⟨⟨hget,rfl⟩,-⟩ := h
        simp [Pool.gone,hget,Actor.Serves]
      | _ => exact h.elim
    | _ => exact h.elim
  | get call => exact h.elim
  | cancel call =>
    cases id with
    | future call' number' =>
      cases h
      simp [Pool.gone,Actor.Serves]
    | _ => exact h.elim

/-- A call that does not move itself moves on when a future of it completes. -/
theorem get_of_move {p p' : Pool Channel} {actor : Actor} {i : Input Channel} {call : ℕ}
    (hm : p.Move actor i p') (hne : .get call ≠ actor) (hgone : p.gone actor (.get call) = false) :
    p'.get call = p.get call ∨
      ∃ n out, p.get call = .select n ∧ p'.get call = .release out := by
  cases hm with
  | task hstep => exact .inl rfl
  | @yield call' number n i hget hsel =>
    by_cases hc : call = call'
    · subst hc
      exact .inr ⟨n,_,hsel,Function.update_self ..⟩
    · exact .inl (Function.update_of_ne hc ..)
  | @push call' i hg =>
    have hc : call ≠ call' := fun h => hne (congrArg Actor.get h)
    exact .inl (Function.update_of_ne hc ..)
  | @call call' i g lists =>
    have hc : call ≠ call' := fun h => hne (congrArg Actor.get h)
    exact .inl (Function.update_of_ne hc ..)
  | @cancel call' i =>
    have hc : call ≠ call' := by
      rintro rfl
      simp [Pool.gone,Actor.Serves] at hgone
    exact .inl (Function.update_of_ne hc ..)

/-- A section ahead of an actor stays ahead of it while others move. -/
theorem needs_of_move {p p' : Pool Channel} {actor a : Actor} {i : Input Channel}
    (ho : p.Orderly) (hm : p.Move actor i p') (hne : a ≠ actor) (hgone : p.gone actor a = false)
    (hneed : p.needs a ≠ none) : p'.needs a = p.needs a := by
  cases a with
  | task id =>
    have hs : ¬ (p.task id).Settled := fun hs => hneed (needs_of_settled hs)
    have hdrop : ¬ p.Drops actor id := by
      intro hdrop
      rw [gone_of_drops hdrop] at hgone
      cases hgone
    exact congrArg Task.needs (hm.task_of_ne ho hs (fun h => hne h.symm) hdrop)
  | get call =>
    rcases get_of_move hm hne hgone with hkeep | ⟨n,out,hsel,-⟩
    · exact congrArg GetChannel.needs hkeep
    · exact absurd (congrArg GetChannel.needs hsel) hneed
  | cancel call => exact absurd rfl hneed

/-- What holds of the locks and the program points in every reachable state. -/
structure Kept (s : Guarded π Channel) : Prop where
  served : s.world.Every Served
  recheck : Agrees s.world.recheck.lock (roles s.world)
  ticketed : ∀ q, Ticketed (s.world.pool q) (s.line q)

theorem kept_init : Kept (Guarded.init : Guarded π Channel) :=
  ⟨fun _ => served_init,agrees_init,fun _ => Ticketed.init _⟩

/-- While a writing section is under way, nobody else is behind its lock: what the world does
in one step, nobody sees half done. -/
theorem Kept.alone {s : Guarded π Channel} {q : π} {n : PoolLock} {a b : Actor} (hs : Kept s)
    (h : (s.line q n).At .entered a) (hneed : (s.world.pool q).needs a = some (n,.exclusive))
    (hb : (s.line q n).Holds b) : b = a := by
  obtain ⟨t,ht,rfl,hstage⟩ := h
  have hmode := (hs.ticketed q).needs n t ht (by simp [hstage])
  rw [hneed,Option.some.injEq,Prod.mk.injEq] at hmode
  have hin : t.stage ≠ .waiting := by simp [hstage]
  by_contra hne
  obtain ⟨u,hu,rfl,hstage'⟩ : ∃ u ∈ (s.line q n).tickets, u.agent = b ∧ u.stage ≠ .waiting := by
    rcases hb with ⟨u,hu,hagent,hu'⟩ | ⟨u,hu,hagent,hu'⟩ <;> exact ⟨u,hu,hagent,by simp [hu']⟩
  have hut : u ≠ t := by
    rintro rfl
    exact hne rfl
  exact hstage' (Line.alone ht hmode.2.symm hin hu hut)

section Kept

variable {s : Guarded π Channel} {q : π} {n : PoolLock} {a : Actor} {call : ℕ}

/-- A ticket is for the section ahead. -/
theorem needs_of_waiting (hs : Kept s) (h : (s.line q n).At .waiting a) :
    (s.world.pool q).needs a ≠ none := by
  obtain ⟨t,ht,rfl,hstage⟩ := h
  simp [(hs.ticketed q).needs n t ht (by simp [hstage])]

theorem not_waiting_of_holds (hs : Kept s) (h : (s.line q n).Holds a) (m : PoolLock) :
    ¬ (s.line q m).At .waiting a := by
  intro hw
  obtain rfl := (hs.ticketed q).one a n m h.mem hw.mem
  exact hw.not_holds h

/-- Who is in, or still holds the guard, is not in the queue of the forced recheck. -/
theorem role_of_holds (hs : Kept s) (h : (s.line q n).Holds (.get call)) :
    role ((s.world.pool q).get call) ≠ .queued := by
  rcases h with ⟨t,ht,hagent,hstage⟩ | hleaving
  · have hneed := (hs.ticketed q).needs n t ht (by simp [hstage])
    rw [hagent] at hneed
    apply role_of_needs
    rw [show ((s.world.pool q).get call).needs = some (n,t.mode) from hneed]
    simp
  · exact (hs.ticketed q).past n call hleaving

theorem not_waiting_of_role (hs : Kept s) (h : role ((s.world.pool q).get call) = .queued)
    (n : PoolLock) : ¬ (s.line q n).At .waiting (.get call) :=
  fun hw => role_of_needs (needs_of_waiting hs hw) h

end Kept

variable [DecidableEq π]

/-- A call that is through with a section does not wait for the forced recheck yet. -/
theorem role_of_section {p p' : Pool Channel} {r r' : RecheckLock π} {me : π} {call now : ℕ}
    (hneed : (p.get call).needs ≠ none) (h : p.stepGet r me call now = some (r',p')) :
    role (p'.get call) ≠ .queued := by
  cases hg : p.get call with
  | start | getAnyLocked =>
    simp only [Pool.stepGet,hg,Option.some.injEq,Prod.mk.injEq] at h
    obtain ⟨-,rfl⟩ := h
    simp only [Pool.getAny,Function.update_self]
    split <;> simp [role]
  | getAnyLast | snapshot =>
    simp only [Pool.stepGet,hg,Option.some.injEq,Prod.mk.injEq] at h
    obtain ⟨-,rfl⟩ := h
    simp [Pool.getAny,Pool.push,role]
  | _ => exact absurd (congrArg GetChannel.needs hg) hneed

/-- The locks of the pool after a turn. -/
theorem Ticketed.turn {s : Guarded π Channel} {w : World π Channel} {l : Label π Channel}
    {lines : PoolLock → Line Actor} (h : Ticketed (s.world.pool l.pool) (s.line l.pool))
    (ho : (s.world.pool l.pool).Orderly) (hlines : s.through l.pool l.actor = some lines)
    (hstep : s.world.step l = some w) :
    Ticketed (w.pool l.pool)
      (fun n => (lines n).forget ((s.world.pool l.pool).gone l.actor)) := by
  obtain ⟨-,-,hm,-⟩ := World.step_move hstep
  have hagents (n : PoolLock) (b : Actor)
      (hb : b ∈ ((lines n).forget ((s.world.pool l.pool).gone l.actor)).agents) :
      b ∈ (s.line l.pool n).agents := by
    obtain ⟨t,ht,rfl⟩ := List.mem_map.mp hb
    rcases h.mem_through hlines (Line.mem_forget.mp ht).1 with ⟨-,hmem⟩ | ⟨hagent,-,-,hmem⟩
    · exact List.mem_map_of_mem hmem
    · exact hagent ▸ hmem
  refine ⟨fun b n n' hb hb' => h.one b n n' (hagents n b hb) (hagents n' b hb'),?_,?_⟩
  · intro n t ht hstage
    obtain ⟨hmem,hgone⟩ := Line.mem_forget.mp ht
    rcases h.mem_through hlines hmem with ⟨hne,hmem⟩ | ⟨-,hleaving,-⟩
    · have hneed := h.needs n t hmem hstage
      rw [needs_of_move ho hm hne hgone (by simp [hneed]),hneed]
    · exact absurd hleaving hstage
  · rintro n call ⟨t,ht,hcall,hstage⟩
    obtain ⟨hmem,hgone⟩ := Line.mem_forget.mp ht
    rcases h.mem_through hlines hmem with ⟨hne,hmem⟩ | ⟨hself,-,hneed,-⟩
    · have hbefore := h.past n call ⟨t,hmem,hcall,hstage⟩
      rw [hcall] at hne hgone
      rcases get_of_move hm hne hgone with hkeep | ⟨m,out,-,hrelease⟩
      · rwa [hkeep]
      · simp [hrelease,role]
    · obtain ⟨q,actor,i⟩ := l
      have hactor : actor = .get call := hself.symm.trans hcall
      subst hactor
      exact role_of_section hneed (World.stepGet_of_step hstep)

theorem Kept.setLine {s : Guarded π Channel} {q : π} {n : PoolLock} {l : Line Actor} (hs : Kept s)
    (h : Ticketed (s.world.pool q) (Function.update (s.line q) n l)) : Kept (s.setLine q n l) := by
  refine ⟨hs.served,hs.recheck,fun q' => ?_⟩
  by_cases hq : q' = q
  · subst hq
    simpa [Guarded.setLine] using h
  · simpa [Guarded.setLine,Guarded.setLines_line_of_ne hq] using hs.ticketed q'

theorem Kept.step {s s' : Guarded π Channel} {e : Access π Channel} (hs : Kept s)
    (h : s.step e = some s') : Kept s' := by
  cases Guarded.step_passage h with
  | @request q a n mode l hneed hfree hl hs' =>
    subst hs'
    exact hs.setLine ((hs.ticketed q).request hneed hfree hl)
  | @enter q a n l hl hs' =>
    subst hs'
    exact hs.setLine ((hs.ticketed q).enter hl)
  | @leave q a n l hl hs' =>
    subst hs'
    exact hs.setLine ((hs.ticketed q).leave hl)
  | @turn l lines w hlines hw hs' =>
    subst hs'
    obtain ⟨-,-,-,hother⟩ := World.step_move hw
    refine ⟨?_,agrees_step hs.recheck hw,fun q => ?_⟩
    · exact World.every_step hw hs.served (fun hm => (hs.served l.pool).move hm)
    · by_cases hq : q = l.pool
      · subst hq
        simpa using (hs.ticketed l.pool).turn (hs.served l.pool).orderly hlines hw
      · simpa [Guarded.setLines_line_of_ne hq,hother q hq] using hs.ticketed q

theorem kept_of_run {es : List (Access π Channel)} {s : Guarded π Channel}
    (hr : run Guarded.step Guarded.init es = some s) : Kept s :=
  run_invariant (P := fun _ _ => True) (fun _ _ _ hs _ h => hs.step h) kept_init
    (along_of_forall (fun _ _ _ => trivial) Guarded.init) hr

end Tickets
end SodaPool
