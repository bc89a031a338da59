import SodaPool.Managed
import SodaPool.Tickets

/-!
# As long as there is a copy

The tasks of a pool are there while a copy is, unless they panic, and are aborted once. What is
left of a pool without a copy holds no lock, waits for none and, when its tasks have stopped,
never moves.
-/

namespace SodaPool

open Transition FairLock.RwLock Tickets

variable {π Channel : Type}

namespace Spawned

/-- There are `n` handles; the task is there while there is one, unless it has panicked. -/
structure Held (s : Spawned) (n : ℕ) : Prop where
  handle : s.handle.Held n
  running : 0 < n → (s.running = true ↔ s.panicked = false)

theorem held_new : new.Held 1 := ⟨Arc.held_new,fun _ => by simp [new]⟩

theorem Held.clone {s : Spawned} {n : ℕ} (h : s.Held n) (hn : 0 < n) : s.clone.Held (n+1) :=
  ⟨h.handle.clone hn,fun _ => h.running hn⟩

theorem Held.drop {s : Spawned} {n : ℕ} (h : s.Held (n+1)) : s.drop.Held n :=
  ⟨h.handle.drop,fun _ => h.running n.succ_pos⟩

theorem Held.reap {s s' : Spawned} {n : ℕ} (h : s.Held n) (hs : s.reap = some s') : s'.Held n := by
  simp only [Spawned.reap,Option.ite_none_right_eq_some,Option.some.injEq] at hs
  obtain ⟨⟨-,hdropped⟩,rfl⟩ := hs
  refine ⟨h.handle,fun hn => ?_⟩
  rw [h.handle.dropped,if_neg (Nat.pos_iff_ne_zero.mp hn)] at hdropped
  exact absurd hdropped (lt_irrefl 0)

theorem Held.panic {s s' : Spawned} {n : ℕ} (h : s.Held n) (hs : s.panic = some s') :
    s'.Held n := by
  simp only [Spawned.panic,Option.ite_none_right_eq_some,Option.some.injEq] at hs
  obtain ⟨-,rfl⟩ := hs
  exact ⟨h.handle,fun _ => by simp⟩

end Spawned

namespace Lifetime

open Managed

/-- Each copy holds both handles, each borrowed copy is there, and the copies of all calls that
have begun and not ended are borrowed. With an interval of nothing there is no look-up. -/
structure Tended (h : Home) (p : Pool Channel) : Prop where
  dns : h.dns.Held h.copies.length
  doctor : h.doctor.Held (h.copies.length+h.dropping.length)
  there : ∀ b ∈ h.uses, b.2 ∈ h.copies
  lent : ∀ call, ¬ (p.get call).Ended → .get call ∈ h.uses.map Prod.fst
  idle : h.dnsInterval = 0 → h.tick = none ∧ p.task .dns = .checkDns .resolve

theorem tended_build (now dnsInterval copy : ℕ) :
    Tended (Home.build now dnsInterval copy) (Pool.init : Pool Channel) where
  dns := Spawned.held_new
  doctor := Spawned.held_new
  there b hb := by cases hb
  lent call hcall := absurd trivial hcall
  idle _ := ⟨rfl,rfl⟩

theorem Tended.turn {h h' : Home} {p : Pool Channel} {t : Home.Turn} (ht : Tended h p)
    (hs : h.turn p t = some h') : Tended h' p := by
  cases Home.turns_of_turn hs with
  | @clone copy copy' hcopy _ _ =>
    have hpos : 0 < h.copies.length := List.length_pos_of_mem hcopy
    refine ⟨ht.dns.clone hpos,?_,fun b hb => List.mem_cons_of_mem _ (ht.there b hb),ht.lent,ht.idle⟩
    have hsum : (copy'::h.copies).length+h.dropping.length =
        h.copies.length+h.dropping.length+1 := by
      simp only [List.length_cons]
      omega
    rw [hsum]
    exact ht.doctor.clone (Nat.add_pos_left hpos _)
  | @dropDns copy hcopy hfree =>
    have hlength : (h.copies.erase copy).length+1 = h.copies.length :=
      List.length_erase_add_one hcopy
    refine ⟨Spawned.Held.drop (hlength ▸ ht.dns),?_,fun b hb => ?_,ht.lent,ht.idle⟩
    · have hsum : (h.copies.erase copy).length+(copy::h.dropping).length =
          h.copies.length+h.dropping.length := by
        simp only [List.length_cons]
        omega
      exact hsum ▸ ht.doctor
    · have hne : b.2 ≠ copy := by
        rintro rfl
        exact hfree (List.mem_map_of_mem hb)
      exact (List.mem_erase_of_ne hne).mpr (ht.there b hb)
  | @dropDoctor copy hcopy =>
    have hlength : (h.dropping.erase copy).length+1 = h.dropping.length :=
      List.length_erase_add_one hcopy
    refine ⟨ht.dns,Spawned.Held.drop ?_,ht.there,ht.lent,ht.idle⟩
    rw [Nat.add_assoc,hlength]
    exact ht.doctor
  | borrow hcopy _ _ =>
    refine ⟨ht.dns,ht.doctor,List.forall_mem_cons.mpr ⟨hcopy,ht.there⟩,fun call hcall => ?_,ht.idle⟩
    exact List.mem_cons_of_mem _ (ht.lent call hcall)
  | @giveBack u hover =>
    refine ⟨ht.dns,ht.doctor,fun b hb => ht.there b (List.mem_of_mem_filter hb),
      fun call hcall => ?_,ht.idle⟩
    obtain ⟨b,hb,hfst⟩ := List.mem_map.mp (ht.lent call hcall)
    have hne : b.1 ≠ u := by
      rintro rfl
      rw [hfst] at hover
      exact hcall hover
    exact List.mem_map.mpr ⟨b,List.mem_filter.mpr ⟨hb,by simpa using hne⟩,hfst⟩
  | reapDns hreap => exact ⟨ht.dns.reap hreap,ht.doctor,ht.there,ht.lent,ht.idle⟩
  | reapDoctor hreap => exact ⟨ht.dns,ht.doctor.reap hreap,ht.there,ht.lent,ht.idle⟩
  | panicDns hpanic => exact ⟨ht.dns.panic hpanic,ht.doctor,ht.there,ht.lent,ht.idle⟩
  | panicDoctor hpanic => exact ⟨ht.dns,ht.doctor.panic hpanic,ht.there,ht.lent,ht.idle⟩

/-- With an interval of nothing all that the task can do is to panic. -/
theorem idle_act {h h' : Home} {p p' : Pool Channel} {actor : Actor} {i : Input Channel}
    (hinterval : h.dnsInterval = 0) (hidle : h.tick = none ∧ p.task .dns = .checkDns .resolve)
    (hs : h.act p actor i.now = some h') (hm : p.Move actor i p') :
    h'.tick = none ∧ p'.task .dns = .checkDns .resolve := by
  obtain ⟨hnone,hresolve⟩ := hidle
  have hlook := (Home.act_eq_some hs).2
  split at hlook
  · obtain ⟨-,hne,-⟩ | ⟨deadline,hsome,-,-⟩ := Home.lookUp_eq_some hlook
    · exact absurd hinterval hne
    · cases hnone.symm.trans hsome
  · rename_i hnot
    have hactor : actor ≠ .task .dns := by
      rintro rfl
      exact hnot (by simp [Home.LooksUp,hresolve])
    rw [hlook]
    exact ⟨hnone,(hm.task_of_not_future (by simp) hactor).trans hresolve⟩

theorem Tended.act {h h' : Home} {p p' : Pool Channel} {actor : Actor} {i : Input Channel}
    (ht : Tended h p) (hs : h.act p actor i.now = some h') (hm : p.Move actor i p') :
    Tended h' p' := by
  have hidle (hinterval : h.dnsInterval = 0) : h'.tick = none ∧ p'.task .dns = .checkDns .resolve :=
    idle_act hinterval (ht.idle hinterval) hs hm
  obtain ⟨tick,rfl⟩ := Home.act_home hs
  have hallowed := (Home.act_eq_some hs).1.2.2
  refine ⟨ht.dns,ht.doctor,ht.there,fun call hcall => ?_,hidle⟩
  by_cases hserves : actor.Serves call ∨ actor = .cancel call
  · apply hallowed
    rcases hserves with hserves | rfl
    · unfold Actor.Serves at hserves
      split at hserves
      · rw [hserves,Use.of]
      · rw [hserves,Use.of]
      · cases hserves
    · rfl
  · push Not at hserves
    rw [hm.get_of_not_serves hserves.1 hserves.2] at hcall
    exact ht.lent call hcall

variable [DecidableEq π]

/-- A pool that is not built is as new, and those that are built are tended. -/
def Kept (m : Managed π Channel) : Prop :=
  (∀ q, m.home q = none → m.world.pool q = Pool.init) ∧
    ∀ q h, m.home q = some h → Tended h (m.world.pool q)

theorem kept_step {m m' : Managed π Channel} {e : Event π Channel} (hm : Kept m)
    (hs : m.step e = some m') : Kept m' := by
  refine ⟨fun q hq => ?_,fun q home' hq => ?_⟩
  · obtain ⟨hnone,hsame⟩ := home_eq_none hs hq
    rw [hsame]
    exact hm.1 q hnone
  · cases becomes_of_step hs hq with
    | other _ hold hsame _ =>
      rw [hsame]
      exact hm.2 q home' hold
    | build hnone hworld hhome =>
      subst hhome
      rw [hworld,hm.1 q hnone]
      exact tended_build _ _ _
    | turn hold hworld hturn =>
      rw [hworld]
      exact (hm.2 q _ hold).turn hturn
    | act hpool hold hact _ _ hmove => exact (hm.2 q _ hold).act hact hmove

theorem kept_of_run {m : Managed π Channel} {es : List (Event π Channel)}
    (hr : run step (start World.init) es = some m) : Kept m := by
  have hstart : Kept (start World.init : Managed π Channel) :=
    ⟨fun _ _ => rfl,fun q h hq => by cases hq⟩
  exact run_invariant (fun s e t hs _ h => kept_step hs h) hstart
    (along_of_forall (fun _ _ _ => trivial) _) hr

/-- The task looks the domain up, and the doctor visits, as long as there is a copy and they do not
panic; with an interval of nothing the first of them does nothing else. Each is aborted once, when
its last handle goes. -/
theorem lifetime_of_run {m : Managed π Channel} {es : List (Event π Channel)}
    (hr : run step (start World.init) es = some m) {q : π} {h : Home} (hq : m.home q = some h) :
    (h.copies ≠ [] → (h.dns.running = true ↔ h.dns.panicked = false) ∧
        (h.doctor.running = true ↔ h.doctor.panicked = false)) ∧
      (h.dnsInterval = 0 → (m.world.pool q).task .dns = .checkDns .resolve) ∧
      h.dns.handle.dropped = (if h.copies = [] then 1 else 0) ∧
      h.doctor.handle.dropped = if h.copies = [] ∧ h.dropping = [] then 1 else 0 := by
  have ht := (kept_of_run hr).2 q h hq
  refine ⟨fun hcopies => ?_,fun hinterval => (ht.idle hinterval).2,?_,?_⟩
  · have hpos : 0 < h.copies.length := List.length_pos_iff.mpr hcopies
    exact ⟨ht.dns.running hpos,ht.doctor.running (Nat.add_pos_left hpos _)⟩
  · rw [ht.dns.handle.dropped]
    simp only [List.length_eq_zero_iff]
  · rw [ht.doctor.handle.dropped]
    simp only [Nat.add_eq_zero_iff,List.length_eq_zero_iff]

/-- A pool with two copies, the first of which is dropped; a call on the second makes a forced
recheck. Another pool has no interval. -/
def rechecking : List (Event Bool Unit) :=
  [.build true 0 5,.build false 0 0,.turn true (.clone 0 1),.act (.quiet true (.task .dns) 0),
    .turn false (.panic .dns),.turn true (.borrow (.get 0) 1),.turn true (.drop 0),
    .turn true (.drop 0)] ++ List.replicate 9 (.act (.quiet true (.get 0) 1))

/-- The call is dropped during its forced recheck, then the second copy, and the tasks stop. -/
def dismantled : List (Event Bool Unit) :=
  rechecking ++ [.act (.quiet true (.cancel 0) 2),.turn true (.giveBack (.get 0)),
    .turn true (.drop 1),.turn true (.reap .dns),.turn true (.drop 1),.turn true (.reap .doctor)]

theorem rechecking_run : ∃ (m : Managed Bool Unit) (h g : Home),
    run step (start World.init) rechecking = some m ∧ m.home true = some h ∧ h.copies = [1] ∧
      h.dns.panicked = false ∧ m.world.recheck.lock.writer = some (true,0) ∧
      m.home false = some g ∧ g.copies = [0] ∧ g.dns.panicked = true :=
  ⟨_,_,_,rfl,rfl,rfl,rfl,rfl,rfl,rfl,rfl⟩

theorem dismantled_run : ∃ (m : Managed Bool Unit) (h : Home),
    run step (start World.init) dismantled = some m ∧ m.home true = some h ∧ h.copies = [] ∧
      h.dropping = [] ∧ h.dns.running = false ∧ h.doctor.running = false :=
  ⟨_,_,rfl,rfl,rfl,rfl,rfl,rfl⟩

/-- The task of the first pool runs on as long as there is the second copy, and is aborted with it;
that of the other pool has panicked. -/
theorem lifetime_dismantled : ∃ (m m' : Managed Bool Unit) (h g h' : Home),
    run step (start World.init) rechecking = some m ∧ m.home true = some h ∧
      m.home false = some g ∧ h.dns.running = true ∧ g.dns.running ≠ true ∧
      run step (start World.init) dismantled = some m' ∧ m'.home true = some h' ∧
      h'.dns.handle.dropped = 1 ∧ h'.doctor.handle.dropped = 1 := by
  obtain ⟨m,h,g,hr,hh,hcopies,hpanicked,-,hg,hcopies',hpanicked'⟩ := rechecking_run
  obtain ⟨m',h',hr',hh',hempty,hdropping,-,-⟩ := dismantled_run
  have hrunning := ((lifetime_of_run hr hh).1 (by simp [hcopies])).1
  have hrunning' := ((lifetime_of_run hr hg).1 (by simp [hcopies'])).1
  obtain ⟨-,-,hdns,hdoctor⟩ := lifetime_of_run hr' hh'
  rw [if_pos hempty] at hdns
  rw [if_pos ⟨hempty,hdropping⟩] at hdoctor
  refine ⟨m,m',h,g,h',hr,hh,hg,hrunning.mpr hpanicked,?_,hr',hh',hdns,hdoctor⟩
  rw [ne_eq,hrunning',hpanicked']
  decide

/-- No copy and no task: what is left has nobody to act for it. -/
structure Gone (h : Home) : Prop where
  copies : h.copies = []
  uses : h.uses = []
  dns : h.dns.running = false
  doctor : h.doctor.running = false

omit [DecidableEq π] in
theorem Gone.turn {h h' : Home} {p : Pool Channel} {t : Home.Turn} (hg : Gone h)
    (hs : h.turn p t = some h') : Gone h' := by
  have hcopy (copy : ℕ) : copy ∉ h.copies := by
    rw [hg.copies]
    exact List.not_mem_nil
  cases Home.turns_of_turn hs with
  | clone hmem | dropDns hmem | borrow hmem => exact absurd hmem (hcopy _)
  | dropDoctor => exact ⟨hg.copies,hg.uses,hg.dns,hg.doctor⟩
  | giveBack => exact ⟨hg.copies,by simp [hg.uses],hg.dns,hg.doctor⟩
  | reapDns hreap => simp [Spawned.reap,hg.dns] at hreap
  | reapDoctor hreap => simp [Spawned.reap,hg.doctor] at hreap
  | panicDns hpanic => simp [Spawned.panic,hg.dns] at hpanic
  | panicDoctor hpanic => simp [Spawned.panic,hg.doctor] at hpanic

omit [DecidableEq π] in
theorem Gone.not_allowed {h : Home} (hg : Gone h) (actor : Actor) : ¬ h.Allowed actor := by
  rintro ⟨hdns,hdoctor,huse⟩
  rw [hg.uses] at huse
  rw [hg.dns] at hdns
  rw [hg.doctor] at hdoctor
  have hused (u : Use) (hu : Use.of actor = some u) : False := by
    simpa using huse u hu
  cases actor with
  | task id =>
    cases id with
    | dns => cases hdns rfl
    | doctor => cases hdoctor rfl
    | report call ip => exact hused _ rfl
    | future call number => exact hused _ rfl
  | get call => exact hused _ rfl
  | cancel call => exact hused _ rfl

theorem home_isSome {m m' : Managed π Channel} {e : Event π Channel} {q : π} {h : Home}
    (hs : m.step e = some m') (hq : m.home q = some h) : ∃ h', m'.home q = some h' := by
  apply Option.ne_none_iff_exists'.mp
  intro hnone
  rw [(home_eq_none hs hnone).1] at hq
  cases hq

/-- Nobody acts for a pool that is gone. -/
def Still (q : π) (p : Pool Channel) (m : Managed π Channel) : Prop :=
  m.world.pool q = p ∧ ∃ h, m.home q = some h ∧ Gone h

theorem still_step {q : π} {p : Pool Channel} {m m' : Managed π Channel} {e : Event π Channel}
    (hm : Still q p m) (hs : m.step e = some m') : Still q p m' := by
  obtain ⟨hpool,h,hq,hg⟩ := hm
  obtain ⟨h',hq'⟩ := home_isSome hs hq
  cases becomes_of_step hs hq' with
  | other _ hold hsame _ =>
    rw [hq,Option.some.injEq] at hold
    exact ⟨hsame.trans hpool,h',hq',hold ▸ hg⟩
  | build hnone => simp [hq] at hnone
  | turn hold hworld hturn =>
    rw [hq,Option.some.injEq] at hold
    subst hold
    exact ⟨by rw [hworld,hpool],h',hq',hg.turn hturn⟩
  | @act l _ hpool' hold hact =>
    rw [hq,Option.some.injEq] at hold
    subst hold
    exact absurd (Home.act_eq_some hact).1 (hg.not_allowed l.actor)

/-- When the last copy of a pool has gone, no call of it is under way, and none has left the lock
of the forced recheck held or waits for it. When the two tasks have stopped as well, nothing
moves the pool any more. -/
theorem quiet_of_run {m : Managed π Channel} {es : List (Event π Channel)}
    (hr : run step (start World.init) es = some m) {q : π} {h : Home} (hq : m.home q = some h)
    (hcopies : h.copies = []) :
    (∀ call, ((m.world.pool q).get call).Ended ∧ (q,call) ∉ m.world.recheck.lock.readers ∧
        (q,call) ∉ m.world.recheck.lock.waiting ∧ m.world.recheck.lock.writer ≠ some (q,call)) ∧
      (h.dns.running = false → h.doctor.running = false → ∀ es' m', run step m es' = some m' →
        m'.world.pool q = m.world.pool q) := by
  have ht := (kept_of_run hr).2 q h hq
  have huses : h.uses = [] := by
    apply List.eq_nil_iff_forall_not_mem.mpr
    intro b hb
    simpa [hcopies] using ht.there b hb
  obtain ⟨ls,hls⟩ := world_of_run hr
  have hagrees := agrees_of_run hls
  refine ⟨fun call => ?_,fun hdns hdoctor es' m' hr' => ?_⟩
  · have hended : ((m.world.pool q).get call).Ended := by
      by_contra hcall
      simpa [huses] using ht.lent call hcall
    have hrole : roles m.world (q,call) = .out := by
      unfold roles
      generalize (m.world.pool q).get call = g at hended
      cases g <;> first | rfl | cases hended
    refine ⟨hended,?_,?_,?_⟩
    · rw [hagrees.readers,hrole]
      simp
    · rw [hagrees.waiting,hrole]
      simp
    · rw [ne_eq,hagrees.writer,hrole]
      simp
  · have hstill : Still q (m.world.pool q) m := ⟨rfl,h,hq,hcopies,huses,hdns,hdoctor⟩
    exact (run_invariant (fun s e t hs _ h => still_step hs h) hstill
      (along_of_forall (fun _ _ _ => trivial) _) hr').1

/-- The call that was dropped has held the lock. -/
theorem quiet_dismantled : ∃ m m' : Managed Bool Unit,
    run step (start World.init) rechecking = some m ∧ m.world.recheck.lock.writer = some (true,0) ∧
      run step (start World.init) dismantled = some m' ∧
      m'.world.recheck.lock.writer ≠ some (true,0) ∧
      ∀ es' m'', run step m' es' = some m'' → m''.world.pool true = m'.world.pool true := by
  obtain ⟨m,-,-,hr,-,-,-,hwriter,-⟩ := rechecking_run
  obtain ⟨m',h,hr',hq,hcopies,-,hdns,hdoctor⟩ := dismantled_run
  obtain ⟨hcalls,hstill⟩ := quiet_of_run hr' hq hcopies
  exact ⟨m,m',hr,hwriter,hr',(hcalls 0).2.2.2,hstill hdns hdoctor⟩

end Lifetime
end SodaPool
