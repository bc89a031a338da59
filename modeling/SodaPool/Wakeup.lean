import SodaPool.Moves

/-!
# The doctor of a pool

The doctor's task is the loop of `next_broken_ip_address`, and every other task of the pool
changes the heap by an insertion or a replacement only. So the runs of a pool are runs of
the loop, and its doctor misses no wake-up.
-/

namespace SodaPool
namespace Wakeup

open Transition DoctorLoop

variable {π Channel : Type}

/-- No task but the doctor's is in `next_broken_ip_address`. -/
def OneDoctor (p : Pool Channel) : Prop := ∀ id n, p.task id = .nextBroken n → id = .doctor

theorem step_eq_nextBroken {id : TaskId} {s s' : Lists Channel} {i : Input Channel}
    {t : Task Channel} {n' : NextBroken} (h : t.step id s i = some (s',.nextBroken n')) :
    (∃ n, t = .nextBroken n) ∨ id = .doctor := by
  have hresume (hid : .nextBroken n' = (Task.resume id : Task Channel)) : id = .doctor := by
    cases id <;> simp_all [Task.resume]
  generalize ht : (.nextBroken n' : Task Channel) = t' at h
  cases Task.taskStep_of_step h with
  | checkDnsEnds | add | reAdd | insert => exact .inr (hresume ht)
  | checkDns | connected | refused | remove | taken => cases ht
  | @waits n => exact .inl ⟨n,rfl⟩

theorem OneDoctor.move {p p' : Pool Channel} {actor : Actor} {i : Input Channel}
    (hp : OneDoctor p) (hm : p.Move actor i p') : OneDoctor p' := by
  intro id n hn
  rcases hm.task_cases id with hsame | hfresh | ⟨lists,-,hown⟩
  · exact hp id n (hsame ▸ hn)
  · rw [hn] at hfresh
    exact hfresh.elim
  · rcases step_eq_nextBroken (hn ▸ hown) with ⟨n',hn'⟩ | hid
    · exact hp id n' hn'
    · exact hid

/-- The heap of the pool is the loop's, and the doctor's task is where the loop is. -/
structure Follows (s : DoctorLoop) (p : Pool Channel) : Prop where
  one : OneDoctor p
  broken : s.broken = p.lists.broken
  owed : s.owed = false
  doctor : (∃ n, p.task .doctor = .nextBroken n ∧ s.doctor = .next n) ∨
    ∃ r entry, p.task .doctor = .recheck r ∧ s.doctor = .testing entry

/-- Only the doctor takes entries out, all others insert or replace. -/
theorem step_broken {id : TaskId} {s : Lists Channel} {i : Input Channel} {t : Task Channel}
    {r : Lists Channel × Task Channel} (h : t.step id s i = some r)
    (ht : ∀ n, t ≠ .nextBroken n) :
    r.1.broken = s.broken ∨ (∃ new, r.1.broken = s.broken.replaceWith new) ∨
      ∃ entry, r.1.broken = s.broken.insert entry := by
  obtain ⟨s',t'⟩ := r
  cases Task.taskStep_of_step h with
  | checkDns hgoes => cases hgoes <;> exact .inl rfl
  | checkDnsEnds hgoes =>
    cases hgoes with
    | unresolved => exact .inl rfl
    | @replaceBroken l => exact .inr (.inl ⟨l.broken,rfl⟩)
  | connected | refused | add | remove => exact .inl rfl
  | @reAdd entry | @insert entry => exact .inr (.inr ⟨entry,rfl⟩)
  | taken | waits => exact absurd rfl (ht _)

/-- The loop can follow a change of the heap, whoever makes it. -/
theorem run_broken {s : DoctorLoop} (hs : s.owed = false) {b : BrokenEndpoints}
    (h : b = s.broken ∨ (∃ new, b = s.broken.replaceWith new) ∨ ∃ entry, b = s.broken.insert entry) :
    ∃ es, run step s es = some { s with broken := b } := by
  rcases h with rfl | ⟨new,rfl⟩ | ⟨entry,rfl⟩
  · exact ⟨[],rfl⟩
  · obtain ⟨es,hes⟩ := run_replace s hs new
    exact ⟨_,hes⟩
  · exact ⟨_,run_insert s hs entry⟩

/-- The loop can follow a step of another task. -/
theorem Follows.other {s : DoctorLoop} {p p' : Pool Channel} {actor : Actor} {i : Input Channel}
    (hs : Follows s p) (hm : p.Move actor i p') (ha : actor ≠ .task .doctor) :
    ∃ es s', run step s es = some s' ∧ Follows s' p' := by
  have hdoctor : p'.task .doctor = p.task .doctor := hm.task_of_not_future (by simp) ha
  have hbroken : p'.lists.broken = s.broken ∨ (∃ new, p'.lists.broken = s.broken.replaceWith new) ∨
      ∃ entry, p'.lists.broken = s.broken.insert entry := by
    rw [hs.broken]
    cases hm with
    | @task id i r hstep =>
      apply step_broken hstep
      intro n hn
      exact ha (congrArg Actor.task (hs.one id n hn))
    | yield => exact .inl rfl
    | push => exact .inl rfl
    | call hready hbroken => exact .inl hbroken
    | cancel => exact .inl rfl
  obtain ⟨es,hes⟩ := run_broken hs.owed hbroken
  exact ⟨es,_,hes,hs.one.move hm,rfl,hs.owed,by rw [hdoctor]; exact hs.doctor⟩

/-- The loop can follow a step of the doctor. -/
theorem Follows.own {s : DoctorLoop} {p p' : Pool Channel} {i : Input Channel}
    (hs : Follows s p) (hm : p.Move (.task .doctor) i p') :
    ∃ es s', run step s es = some s' ∧ Follows s' p' := by
  have hone := hs.one.move hm
  rcases hs.doctor with ⟨n,ht,hd⟩ | ⟨r,entry,ht,hd⟩
  · have hstep := hm.task_self (by simp [ht])
    rw [ht] at hstep
    obtain ⟨o,ho,heq⟩ := Option.map_eq_some_iff.mp hstep
    rw [← hs.broken] at ho
    obtain ⟨hlists,htask⟩ := Prod.mk.inj heq
    obtain ⟨seen,hturn⟩ := turn_of_step hs.owed hd ho
    refine ⟨[.turn i.now i.timer],_,run_cons_eq_some.mpr ⟨_,hturn,rfl⟩,hone,?_,hs.owed,?_⟩
    · rw [← hlists]
    · rw [← htask]
      cases o.2 with
      | inl entry => exact .inr ⟨_,entry,rfl,rfl⟩
      | inr n' => exact .inl ⟨n',rfl,rfl⟩
  · have hstep := hm.task_self (by simp [ht])
    rw [ht] at hstep
    have hbroken := step_broken hstep (by simp)
    rw [← hs.broken] at hbroken
    obtain ⟨es,hes⟩ := run_broken hs.owed hbroken
    simp only [Task.step,Option.some.injEq,Prod.mk.injEq] at hstep
    obtain ⟨-,htask⟩ := hstep
    cases hr : (r.step p.lists i).2 with
    | some r' =>
      refine ⟨es,_,hes,hone,rfl,hs.owed,.inr ⟨r',entry,?_,hd⟩⟩
      rw [← htask,hr]
      rfl
    | none =>
      refine ⟨es ++ [.tested],⟨p'.lists.broken,.next .lock,s.owed,s.inspected⟩,
        run_append.mpr ⟨_,hes,?_⟩,hone,rfl,hs.owed,.inl ⟨.lock,?_,rfl⟩⟩
      · simp [run,DoctorLoop.step,hd]
      · rw [← htask,hr]
        rfl

variable [DecidableEq π]

/-- Every run of a world, seen from one of its pools, is a run of the doctor's loop. -/
theorem follows_of_run {ls : List (Label π Channel)} {u : World π Channel}
    (hr : run World.step World.init ls = some u) (q : π) :
    ∃ es s, run step DoctorLoop.init es = some s ∧ Follows s (u.pool q) := by
  apply World.run_pool (I := fun p => ∃ es s, run step DoctorLoop.init es = some s ∧ Follows s p)
    ?_ ?_ hr
  · rintro p actor i p' ⟨es,s,hes,hs⟩ hm
    have hnext : ∃ es' s', run step s es' = some s' ∧ Follows s' p' := by
      by_cases ha : actor = .task .doctor
      · subst ha
        exact hs.own hm
      · exact hs.other hm ha
    obtain ⟨es',s',hes',hs'⟩ := hnext
    exact ⟨es ++ es',s',run_append.mpr ⟨s,hes,hes'⟩,hs'⟩
  · refine ⟨[],_,rfl,?_,rfl,rfl,.inl ⟨.lock,rfl,rfl⟩⟩
    intro id n hn
    cases id <;> simp [World.init,Pool.init] at hn ⊢

/-- A doctor that waits without a timer and has not been notified has nothing to test. -/
theorem nothing_to_test {ls : List (Label π Channel)} {u : World π Channel}
    (hr : run World.step World.init ls = some u) (q : π)
    (hwait : (u.pool q).task .doctor = .nextBroken .wait)
    (hsilent : (u.pool q).lists.broken.notifier.Silent) : (u.pool q).lists.broken.addresses = [] := by
  obtain ⟨es,s,hes,hs⟩ := follows_of_run hr q
  have hcurrent := current_of_run hes
  have hd : s.doctor = .next .wait := by
    rcases hs.doctor with ⟨n,hn,hd⟩ | ⟨r,entry,hn,-⟩
    · rw [hwait] at hn
      cases hn
      exact hd
    · rw [hwait] at hn
      cases hn
  rw [← hs.broken] at hsilent ⊢
  rcases hcurrent.parked .wait hd (by simp) ⟨hs.owed,hsilent⟩ with hempty | hseen
  · exact hempty
  · exact hseen.trans (hcurrent.wait hd)

end Wakeup
end SodaPool
