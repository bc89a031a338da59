import SodaPool.Uniqueness

/-!
# What a forced recheck waits for

`get_channel` pushes one `check_dns` and one recheck per entry of the heap, and takes the
answer of the first that completes. It drops the others, whatever they were about to find.
-/

namespace SodaPool
namespace ForcedRecheck

open Containers Transition

variable {π Channel : Type}

/-- The call answers `None` only if all its futures, numbered up to `n`, have completed
and none of them has left a channel in the ready list. -/
def Complete (p : Pool Channel) (call n : ℕ) : Prop :=
  p.get call = .release none →
    (∀ number ≤ n, ∃ out, p.task (.future call number) = .completed out) ∧
      p.lists.ready.channels = []

/-- The call selects among its futures, numbered up to `n`, or has left that behind. -/
def Selecting (call n : ℕ) (p : Pool Channel) : Prop :=
  (p.get call = .select n ∧ ∀ number, n < number → p.task (.future call number) = .idle) ∨
    9 < (p.get call).rank

theorem selecting_push (p : Pool Channel) (call : ℕ) :
    Selecting call p.lists.broken.addresses.length (p.push call) := by
  refine .inl ⟨Function.update_self ..,fun number hn => ?_⟩
  simp only [Pool.push,Pool.setFutures_self]
  cases number with
  | zero => exact absurd hn (Nat.not_lt_zero _)
  | succ number => simp [Pool.pushed,Nat.le_of_lt_succ hn]

theorem Selecting.move {p p' : Pool Channel} {call n : ℕ} {actor : Actor} {i : Input Channel}
    (hp : Selecting call n p) (hm : p.Move actor i p') : Selecting call n p' := by
  cases hm with
  | @task id i r hstep =>
    rcases hp with ⟨hget,hidle⟩ | hrank
    · refine .inl ⟨hget,fun number hn => ?_⟩
      have hne : TaskId.future call number ≠ id := by
        rintro rfl
        rw [hidle number hn] at hstep
        cases hstep
      simpa [Function.update_of_ne hne] using hidle number hn
    · exact .inr hrank
  | @yield call' number' n' i hget' hsel =>
    by_cases hc : call = call'
    · subst hc
      right
      simp [Pool.yield,GetChannel.rank]
    · simp only [Selecting,Pool.yield,Function.update_of_ne hc,Pool.setFutures_future hc]
      exact hp
  | @push call' i hsnap =>
    by_cases hc : call = call'
    · subst hc
      simp [Selecting,hsnap,GetChannel.rank] at hp
    · simp only [Selecting,Pool.push,Function.update_of_ne hc,Pool.setFutures_future hc]
      exact hp
  | @call call' i g lists hready hbroken hs hsnap hg hrank =>
    by_cases hc : call = call'
    · subst hc
      right
      have hold := hp.resolve_left (fun h => hs n h.1)
      simpa using hold.trans hrank
    · simp only [Selecting,Function.update_of_ne hc]
      exact hp
  | @cancel call' i =>
    by_cases hc : call = call'
    · subst hc
      right
      simp [Pool.cancel,GetChannel.rank]
    · simp only [Selecting,Pool.cancel,Function.update_of_ne hc,Pool.setFutures_future hc]
      exact hp

/-- What the first completion makes of the pool. -/
theorem complete_yield_iff {p : Pool Channel} {call number n : ℕ} (hn : number ≤ n) :
    Complete (p.yield call number) call n ↔ n = 0 ∨ p.lists.ready.channels ≠ [] := by
  have hget : (p.yield call number).get call = .release p.lists.ready.getAny.1 :=
    Function.update_self ..
  have htask (j : ℕ) : (p.yield call number).task (.future call j) =
      if j = number then .completed p.lists.ready.getAny.1 else .idle := by
    simp [Pool.yield]
  have hready : (p.yield call number).lists.ready.channels = p.lists.ready.channels :=
    ReadyChannels.getAny_channels _
  have hanswer : p.lists.ready.getAny.1 = none ↔ p.lists.ready.channels = [] :=
    ReadyChannels.getAny_eq_none
  constructor
  · intro h
    by_cases hempty : p.lists.ready.channels = []
    · left
      have hall := (h (by rw [hget,hanswer.mpr hempty])).1
      have hone (j : ℕ) (hj : j ≤ n) : j = number := by
        by_contra hne
        obtain ⟨out,hout⟩ := hall j hj
        rw [htask,if_neg hne] at hout
        cases hout
      have hzero := hone 0 (Nat.zero_le n)
      have hlast := hone n (le_refl n)
      omega
    · exact .inr hempty
  · intro h hnone
    rw [hget,GetChannel.release.injEq] at hnone
    have hempty := hanswer.mp hnone
    have hn0 : n = 0 := h.resolve_right (fun hne => hne hempty)
    refine ⟨fun j hj => ⟨p.lists.ready.getAny.1,?_⟩,hready.trans hempty⟩
    rw [htask,if_pos (by omega)]

variable [DecidableEq π]

theorem pool_of_push {w w' : World π Channel} {q : π} {call : ℕ} {i : Input Channel}
    (hs : (w.pool q).get call = .snapshot) (h : w.step ⟨q,.get call,i⟩ = some w') :
    w'.pool q = (w.pool q).push call := by
  have hm : (w.pool q).Move (.get call) i (w'.pool q) := (World.step_move h).2.2.1
  generalize w'.pool q = p' at hm
  cases hm with
  | push => rfl
  | call _ _ _ hsnap => exact absurd hs hsnap

theorem pool_of_yield {w w' : World π Channel} {q : π} {call number : ℕ} {i : Input Channel}
    (hg : (w.pool q).task (.future call number) = .getAny)
    (h : w.step ⟨q,.task (.future call number),i⟩ = some w') :
    w'.pool q = (w.pool q).yield call number ∧ ∃ n, (w.pool q).get call = .select n := by
  have hm : (w.pool q).Move (.task (.future call number)) i (w'.pool q) :=
    (World.step_move h).2.2.1
  generalize w'.pool q = p' at hm
  cases hm with
  | task hstep =>
    rw [hg] at hstep
    cases hstep
  | yield _ hsel => exact ⟨rfl,_,hsel⟩

/-- From the push of the futures to the completion of the first one, with anything in
between: the recheck is complete exactly when the snapshot was empty, so that only
`check_dns` was pushed, or there is a ready channel when the first future completes. -/
theorem complete_iff {w v v' : World π Channel} {q : π} {call number : ℕ} {i j : Input Channel}
    {ls : List (Label π Channel)} (hs : (w.pool q).get call = .snapshot)
    (hr : run World.step w (⟨q,.get call,i⟩::ls) = some v)
    (hg : (v.pool q).task (.future call number) = .getAny)
    (hy : v.step ⟨q,.task (.future call number),j⟩ = some v') :
    Complete (v'.pool q) call (w.pool q).lists.broken.addresses.length ↔
      (w.pool q).lists.broken.addresses = [] ∨ (v.pool q).lists.ready.channels ≠ [] := by
  obtain ⟨u,hu,hrest⟩ := run_cons_eq_some.mp hr
  have hpush := selecting_push (w.pool q) call
  rw [← pool_of_push hs hu] at hpush
  have hselect : Selecting call (w.pool q).lists.broken.addresses.length (v.pool q) :=
    World.run_pool (fun _ _ _ _ hp hm => hp.move hm) hpush hrest
  obtain ⟨hv',n,hn⟩ := pool_of_yield hg hy
  have hlive := hselect.resolve_right (by simp [hn,GetChannel.rank])
  have hle : number ≤ (w.pool q).lists.broken.addresses.length := by
    by_contra hlt
    have hidle := hlive.2 number (Nat.lt_of_not_le hlt)
    rw [hg] at hidle
    cases hidle
  rw [hv',complete_yield_iff hle,List.length_eq_zero_iff]

/-- Two addresses refuse the connection; one second later a call gets as far as its forced
recheck. -/
def entered : List (Label Unit Unit) :=
  .answered () .dns 0 [.v4 1,.v4 2]::List.replicate 8 (.quiet () (.task .dns) 0) ++
    List.replicate 8 (.quiet () (.get 0) 1000000000)

/-- The next step of a future of the call. -/
def future (number : ℕ) : Label Unit Unit := .quiet () (.task (.future 0 number)) 1000000000

/-- The first address refuses once more. -/
def refusedAgain : List (Label Unit Unit) :=
  [.quiet () (.get 0) 1000000000,future 1,future 1]

/-- The second address accepts the connection. -/
def accepted : List (Label Unit Unit) := [.connected () (.future 0 2) 1000000000 (),future 2]

/-- The first recheck fails and completes, so the call answers `None`. From the same state
the second recheck would have connected, and the call would have answered its channel. -/
theorem complete_fails : ∃ w v v' x : World Unit Unit,
    run World.step World.init entered = some w ∧ (w.pool ()).get 0 = .snapshot ∧
      run World.step w refusedAgain = some v ∧ v.step (future 1) = some v' ∧
      ¬ Complete (v'.pool ()) 0 (w.pool ()).lists.broken.addresses.length ∧
      run World.step v (accepted ++ [future 2,.quiet () (.get 0) 1000000000]) = some x ∧
      ((x.pool ()).get 0).result = some (some (.v4 2,())) := by
  have hx : (run World.step World.init (entered ++ (refusedAgain ++
      (accepted ++ [future 2,.quiet () (.get 0) 1000000000])))).map
        (fun x => ((x.pool ()).get 0).result) = some (some (some (.v4 2,()))) := by decide
  have hv : (run World.step World.init (entered ++ (refusedAgain ++ [future 1]))).isSome := by
    decide
  obtain ⟨x,hxrun,hres⟩ := Option.map_eq_some_iff.mp hx
  obtain ⟨w,hw,hxrun⟩ := run_append.mp hxrun
  obtain ⟨v,hvrun,hxrun⟩ := run_append.mp hxrun
  obtain ⟨v',hv'⟩ := Option.isSome_iff_exists.mp hv
  obtain ⟨w₂,hw₂,hv'⟩ := run_append.mp hv'
  cases hw.symm.trans hw₂
  obtain ⟨v₂,hv₂,hv'⟩ := run_append.mp hv'
  cases hvrun.symm.trans hv₂
  obtain ⟨u,hu,hend⟩ := run_cons_eq_some.mp hv'
  cases hend
  refine ⟨w,v,v',x,hw,?_,hvrun,hu,?_,hxrun,hres⟩
  · cases hw
    rfl
  · cases hw
    cases hvrun
    cases hu
    intro h
    obtain ⟨out,hout⟩ := (h rfl).1 0 (Nat.zero_le _)
    cases hout

/-- Had the second recheck been the first to complete, the call would have been right. -/
theorem complete_accepted : ∃ w v v' : World Unit Unit,
    run World.step World.init entered = some w ∧
      run World.step w (.quiet () (.get 0) 1000000000::accepted) = some v ∧
      v.step (future 2) = some v' ∧
      Complete (v'.pool ()) 0 (w.pool ()).lists.broken.addresses.length := by
  have h : (run World.step World.init
      (entered ++ ((.quiet () (.get 0) 1000000000::accepted) ++ [future 2]))).isSome := by decide
  obtain ⟨v',hrun⟩ := Option.isSome_iff_exists.mp h
  obtain ⟨w,hw,hrun⟩ := run_append.mp hrun
  obtain ⟨v,hv,hrun⟩ := run_append.mp hrun
  obtain ⟨u,hu,hend⟩ := run_cons_eq_some.mp hrun
  cases hend
  have hs : (w.pool ()).get 0 = .snapshot := by
    cases hw
    rfl
  have hg : (v.pool ()).task (.future 0 2) = .getAny ∧ (v.pool ()).lists.ready.channels ≠ [] := by
    cases hw
    cases hv
    exact ⟨rfl,by rintro ⟨⟩⟩
  exact ⟨w,v,v',hw,hv,hu,(complete_iff hs hv hg.1 hu).mpr (.inr hg.2)⟩

end ForcedRecheck
end SodaPool
