import Mathlib.Algebra.BigOperators.Group.Finset.Basic
import Mathlib.Algebra.Order.BigOperators.Group.Finset
import SodaPool.Provenance

/-!
# A call of `get_channel` alone on its pool

When nothing else uses the pool, a call either returns an entry in its first step or finds
the ready list empty. Then it takes the lock without a wait, and its futures cannot find a
channel if no connection succeeds: they complete, and the call returns nothing.
-/

namespace SodaPool
namespace LoneCall

open Containers Transition FairLock Provenance

variable {π Channel : Type}

section Futures

/-- A future that holds no channel. -/
def Plain : Task Channel → Prop
  | .checkDns c => held (.checkDns c) = []
  | .recheck (.add _ _) => False
  | .recheck _ => True
  | .getAny | .idle => True
  | _ => False

/-- The `check_dns` that waits for its answer, which may be of any length. -/
def unresolved : Task Channel → ℕ
  | .checkDns .resolve => 1
  | _ => 0

/-- The steps of a future up to its `get_any`, once the answer is there. -/
def remaining : Task Channel → ℕ
  | .checkDns (.find _ l) => 3*l.addresses.length+5
  | .checkDns (.getAddress _ l) => 3*l.addresses.length+4
  | .checkDns (.connect _ l) => 3*l.addresses.length+3
  | .checkDns (.replaceReady _) => 2
  | .checkDns (.replaceBroken _) => 1
  | .recheck (.connect _) => 2
  | .recheck _ => 1
  | _ => 0

theorem remaining_loop (l : Locals Channel) :
    remaining (.checkDns (CheckDns.loop l)) = 3*l.addresses.length+2 := by
  obtain ⟨addresses,ready,broken⟩ := l
  cases addresses <;> rfl

theorem unresolved_loop (l : Locals Channel) : unresolved (.checkDns (CheckDns.loop l)) = 0 := by
  obtain ⟨addresses,ready,broken⟩ := l
  cases addresses <;> rfl

/-- A future comes closer to its end with every step. -/
theorem closer_of_step {s : Lists Channel} {i : Input Channel} {t : Task Channel} {call number : ℕ}
    {r : Lists Channel × Task Channel} (ht : Plain t)
    (h : t.step (.future call number) s i = some r) :
    unresolved r.2 < unresolved t ∨
      unresolved r.2 = unresolved t ∧ remaining r.2 < remaining t := by
  have hloop {l : Locals Channel} (h0 : unresolved t = 0)
      (hl : 3*l.addresses.length+2 < remaining t) :
      unresolved (.checkDns (CheckDns.loop l)) = unresolved t ∧
        remaining (.checkDns (CheckDns.loop l)) < remaining t :=
    ⟨by rw [unresolved_loop,h0],by rwa [remaining_loop]⟩
  obtain ⟨s',t'⟩ := r
  cases Task.taskStep_of_step h with
  | checkDns hgoes =>
    cases hgoes with
    | resolved =>
      left
      rw [unresolved_loop]
      exact Nat.one_pos
    | ready | broken | connected | refused => exact .inr (hloop rfl (by simp [remaining]))
    | notReady | unknown | replaceReady => exact .inr ⟨rfl,Nat.lt_add_one _⟩
  | checkDnsEnds hgoes =>
    cases hgoes with
    | unresolved => exact .inl Nat.one_pos
    | replaceBroken => exact .inr ⟨rfl,Nat.lt_add_one 0⟩
  | connected | refused => exact .inr ⟨rfl,Nat.lt_add_one 1⟩
  | add | reAdd => exact .inr ⟨rfl,Nat.lt_add_one 0⟩
  | remove | insert | taken | waits => exact ht.elim

/-- With nothing ready and no connection, a future stays without a channel. -/
theorem Plain.step {s : Lists Channel} {i : Input Channel} {t : Task Channel} {call number : ℕ}
    {r : Lists Channel × Task Channel} (ht : Plain t) (hs : s.ready.channels = [])
    (hi : i.outcome = none) (h : t.step (.future call number) s i = some r) : Plain r.2 := by
  have hheld : held r.2 = [] := by
    apply List.eq_nil_iff_forall_not_mem.mpr
    intro e he
    rcases held_step h he with hold | hready | ⟨-,ho⟩
    · cases t with
      | checkDns c => rw [ht] at hold; cases hold
      | recheck r' => cases r' <;> first | exact ht | cases hold
      | idle | getAny | nextBroken | report => cases hold
      | completed out => exact ht
    · rw [hs] at hready
      cases hready
    · rw [hi] at ho
      cases ho
  obtain ⟨s',t'⟩ := r
  cases Task.taskStep_of_step h with
  | checkDns => exact hheld
  | connected ho => cases hi.symm.trans ho
  | checkDnsEnds | refused | reAdd => trivial
  | add | remove | insert | taken | waits => exact ht.elim

/-- The futures of a call that selects among those numbered up to `n`. -/
structure Selects (call n : ℕ) (p : Pool Channel) : Prop where
  plain : ∀ number, Plain (p.task (.future call number))
  beyond : ∀ number, n < number → p.task (.future call number) = .idle
  first : (∃ c, p.task (.future call 0) = .checkDns c) ∨ p.task (.future call 0) = .getAny

theorem selects_push (p : Pool Channel) (call : ℕ) :
    Selects call p.lists.broken.addresses.length (p.push call) where
  plain number := by
    simp only [Pool.push,Pool.setFutures_self]
    cases number with
    | zero => rfl
    | succ number =>
      simp only [Pool.pushed]
      cases p.lists.broken.addresses[number]? <;> trivial
  beyond number hn := by
    simp only [Pool.push,Pool.setFutures_self]
    cases number with
    | zero => exact absurd hn (Nat.not_lt_zero _)
    | succ number => simp [Pool.pushed,Nat.le_of_lt_succ hn]
  first := .inl ⟨.resolve,by simp [Pool.push,Pool.pushed]⟩

/-- The first future goes on with its `check_dns` until it completes. -/
theorem first_of_step {s : Lists Channel} {i : Input Channel} {c : CheckDns Channel}
    {call number : ℕ} {r : Lists Channel × Task Channel}
    (h : (Task.checkDns c).step (.future call number) s i = some r) :
    (∃ c', r.2 = .checkDns c') ∨ r.2 = .getAny := by
  simp only [Task.step,Option.some.injEq] at h
  subst h
  cases hc : (c.step s i).2 with
  | some c' => exact .inl ⟨c',rfl⟩
  | none => exact .inr rfl

theorem Selects.task {call n number : ℕ} {p : Pool Channel} {i : Input Channel}
    {r : Lists Channel × Task Channel} (hp : Selects call n p)
    (hready : p.lists.ready.channels = []) (hi : i.outcome = none)
    (h : (p.task (.future call number)).step (.future call number) p.lists i = some r) :
    Selects call n { p with lists := r.1, task := Function.update p.task (.future call number) r.2 } ∧
      number ≤ n := by
  have hle : number ≤ n := by
    by_contra hn
    rw [hp.beyond number (by omega)] at h
    cases h
  refine ⟨⟨fun j => ?_,fun j hj => ?_,?_⟩,hle⟩
  · by_cases hjn : j = number
    · subst hjn
      simpa using (hp.plain j).step hready hi h
    · simpa [hjn] using hp.plain j
  · have hjn : j ≠ number := by omega
    simpa [hjn] using hp.beyond j hj
  · by_cases h0 : number = 0
    · subst h0
      simp only [Function.update_self]
      rcases hp.first with ⟨c,hc⟩ | hany
      · rw [hc] at h
        exact first_of_step h
      · rw [hany] at h
        cases h
    · simpa [Ne.symm h0] using hp.first

end Futures

section Calls

/-- Where the lock of the forced recheck stands while a call is on its way, alone. With a ready
entry it is not on its way for long, so the ready list is empty from its second step on. -/
def Fetching (me : π × ℕ) (r : RecheckLock π) (p : Pool Channel) : Prop :=
  match p.get me.2 with
  | .start => r.lock = RwLock.free
  | .tryRead | .requestWrite => r.lock = RwLock.free ∧ p.lists.ready.channels = []
  | .ageTest | .dropRead => r.lock = ⟨[me],none,[]⟩ ∧ p.lists.ready.channels = []
  | .awaitWrite => r.lock = ⟨[],none,[me]⟩ ∧ p.lists.ready.channels = []
  | .getAnyLocked | .stamp | .snapshot =>
    r.lock = ⟨[],some me,[]⟩ ∧ p.lists.ready.channels = []
  | .select n => r.lock = ⟨[],some me,[]⟩ ∧ p.lists.ready.channels = [] ∧ Selects me.2 n p
  | .release out => r.lock = ⟨[],some me,[]⟩ ∧ p.lists.ready.channels = [] ∧ out = none
  | .done none => r.lock = RwLock.free ∧ p.lists.ready.channels = []
  | .done (some e) => r.lock = RwLock.free ∧ e ∈ p.lists.ready.channels
  | .requestWait | .awaitWait | .releaseWait | .getAnyLast | .cancelled => False

theorem getAny_of_empty {r : ReadyChannels Channel} (h : r.channels = []) : r.getAny = (none,r) := by
  simp [ReadyChannels.getAny,h]

variable [DecidableEq π]

theorem fetching_get {me : π × ℕ} {r r' : RecheckLock π} {p p' : Pool Channel} {now : ℕ}
    (hf : Fetching me r p) (h : p.stepGet r me.1 me.2 now = some (r',p')) : Fetching me r' p' := by
  have hstep := Pool.stepGet_eq_some.mp h
  generalize hg : p.get me.2 = g at hstep
  simp only [Fetching,hg] at hf
  cases hstep with
  | start =>
    cases hany : p.lists.ready.getAny.1 with
    | none =>
      have hempty := ReadyChannels.getAny_eq_none.mp hany
      simp [Fetching,Pool.getAny,hany,hf,hempty]
    | some e =>
      have hmem := ReadyChannels.getAny_mem hany
      simp [Fetching,Pool.getAny,hany,hf,hmem]
  | tryRead hl =>
    simp only [RwLock.tryRead,hf.1,RwLock.free] at hl
    cases hl
    simp [Fetching,Pool.setGet,hf.2]
  | busy hl => simp [RwLock.tryRead,hf.1,RwLock.free] at hl
  | due => simp [Fetching,Pool.setGet,hf]
  | recent | dropRead => simp [Fetching,Pool.setGet,hf,RwLock.releaseRead,RwLock.free]
  | requestWrite => simp [Fetching,Pool.setGet,hf,RwLock.request,RwLock.free]
  | awaitWrite hlock =>
    obtain ⟨rest,hwaiting,rfl⟩ := RwLock.acquire_eq_some.mp hlock
    cases hf.1.symm.trans hwaiting
    simp [Fetching,Pool.setGet,hf.2]
  | getAnyLocked => simp [Fetching,Pool.getAny,getAny_of_empty hf.2,hf]
  | stamp => simp [Fetching,Pool.setGet,hf]
  | snapshot =>
    have hget : (p.push me.2).get me.2 = .select p.lists.broken.addresses.length :=
      Function.update_self ..
    simp only [Fetching,hget]
    exact ⟨hf.1,hf.2,selects_push p me.2⟩
  | release => simp [Fetching,Pool.setGet,hf,RwLock.releaseWrite,RwLock.free]
  | requestWait | awaitWait | releaseWait | getAnyLast => exact hf.elim

/-- A sum over the futures that a call selects among. -/
def total (f : Task Channel → ℕ) (call : ℕ) (p : Pool Channel) : ℕ :=
  match p.get call with
  | .select n => ∑ number ∈ Finset.range (n+1), f (p.task (.future call number))
  | _ => 0

/-- What a step of a future leaves to be done: less of the future, or less of the call. -/
def Closer (call : ℕ) (p p' : Pool Channel) : Prop :=
  (p.get call).rank < (p'.get call).rank ∨ (p'.get call).rank = (p.get call).rank ∧
    (total unresolved call p' < total unresolved call p ∨
      total unresolved call p' = total unresolved call p ∧
        total remaining call p' < total remaining call p)

theorem sum_lt_of_update {f g : ℕ → ℕ} {m j : ℕ} (hj : j < m) (hsame : ∀ k, k ≠ j → g k = f k)
    (h : g j < f j) : ∑ k ∈ Finset.range m, g k < ∑ k ∈ Finset.range m, f k := by
  apply Finset.sum_lt_sum
  · intro k _
    by_cases hk : k = j
    · subst hk
      exact le_of_lt h
    · exact le_of_eq (hsame k hk)
  · exact ⟨j,Finset.mem_range.mpr hj,h⟩

theorem sum_eq_of_update {f g : ℕ → ℕ} {m j : ℕ} (hsame : ∀ k, k ≠ j → g k = f k) (h : g j = f j) :
    ∑ k ∈ Finset.range m, g k = ∑ k ∈ Finset.range m, f k := by
  apply Finset.sum_congr rfl
  intro k _
  by_cases hk : k = j
  · subst hk
    exact h
  · exact hsame k hk

omit [DecidableEq π] in
/-- A future works only while its call selects, and finds nothing. -/
theorem fetching_future {me : π × ℕ} {r : RecheckLock π} {p p' : Pool Channel} {i : Input Channel}
    {number : ℕ} (hf : Fetching me r p) (ho : p.Orderly) (hi : i.outcome = none)
    (hm : p.Move (.task (.future me.2 number)) i p') :
    Fetching me r p' ∧ p'.lists.ready.channels = [] ∧ p.lists.ready.channels = [] ∧
      Closer me.2 p p' := by
  have hselect : ∃ n, p.get me.2 = .select n := by
    by_contra hnot
    have hset := ho me.2 number (fun n hn => hnot ⟨n,hn⟩)
    cases hm with
    | task hstep => exact Task.not_settled_of_step hstep hset
    | yield hget hsel => exact hnot ⟨_,hsel⟩
  obtain ⟨n,hn⟩ := hselect
  simp only [Fetching,hn] at hf
  obtain ⟨hlock,hready,hsel⟩ := hf
  have hready' : p'.lists.ready.channels = [] := by
    apply List.eq_nil_iff_forall_not_mem.mpr
    intro e he
    rcases ready_of_move hm he with hold | ⟨id,hid,hheld⟩
    · rw [hready] at hold
      cases hold
    · cases hid
      have hplain := hsel.plain number
      cases ht : p.task (.future me.2 number) with
      | checkDns c =>
        rw [ht] at hplain hheld
        rw [show held (.checkDns c) = [] from hplain] at hheld
        cases hheld
      | recheck r' => cases r' <;> simp_all [Plain,held]
      | _ => simp_all [Plain,held]
  cases hm with
  | @task id i r' hstep =>
    obtain ⟨hselects,hle⟩ := hsel.task hready hi hstep
    refine ⟨?_,hready',hready,.inr ⟨rfl,?_⟩⟩
    · simp only [Fetching,hn]
      exact ⟨hlock,hready',hselects⟩
    · have hself (f : Task Channel → ℕ) (j : ℕ) (hj : j ≠ number) :
          f (Function.update p.task (.future me.2 number) r'.2 (.future me.2 j)) =
            f (p.task (.future me.2 j)) := by
        rw [Function.update_of_ne]
        simpa using hj
      simp only [total,hn]
      rcases closer_of_step (hsel.plain number) hstep with hlt | ⟨heq,hlt⟩
      · exact .inl (sum_lt_of_update (Nat.lt_succ_of_le hle) (hself unresolved) (by simpa using hlt))
      · refine .inr ⟨sum_eq_of_update (hself unresolved) (by simpa using heq),?_⟩
        exact sum_lt_of_update (Nat.lt_succ_of_le hle) (hself remaining) (by simpa using hlt)
  | yield hget hsel' =>
    have hget' : (p.yield me.2 number).get me.2 = .release p.lists.ready.getAny.1 :=
      Function.update_self ..
    refine ⟨?_,hready',hready,.inl ?_⟩
    · simp only [Fetching,hget']
      exact ⟨hlock,hready',by rw [getAny_of_empty hready]⟩
    · simp [hget',hn,GetChannel.rank]

/-- A call that has not returned can go on. -/
theorem fetching_progress {me : π × ℕ} {r : RecheckLock π} {p : Pool Channel} (i : Input Channel)
    (hf : Fetching me r p) : (∃ out, p.get me.2 = .done out) ∨
      (∃ r', p.stepGet r me.1 me.2 i.now = some r') ∨
      ∃ p', p.stepTask (.future me.2 0) i = some p' := by
  cases hg : p.get me.2 with
  | done out => exact .inl ⟨out,rfl⟩
  | start | dropRead | requestWrite | getAnyLocked | stamp | snapshot | release =>
    refine .inr (.inl (Option.isSome_iff_exists.mp ?_))
    simp only [Pool.stepGet,hg]
    rfl
  | tryRead =>
    refine .inr (.inl (Option.isSome_iff_exists.mp ?_))
    simp only [Pool.stepGet,hg]
    split <;> rfl
  | ageTest =>
    refine .inr (.inl (Option.isSome_iff_exists.mp ?_))
    simp only [Pool.stepGet,hg]
    split <;> rfl
  | awaitWrite =>
    simp only [Fetching,hg] at hf
    have hacquire : r.lock.acquire me = some ⟨[],some me,[]⟩ :=
      RwLock.acquire_eq_some.mpr ⟨[],hf.1,rfl⟩
    refine .inr (.inl (Option.isSome_iff_exists.mp ?_))
    simp only [Pool.stepGet,hg,hacquire]
    rfl
  | select n =>
    simp only [Fetching,hg] at hf
    refine .inr (.inr (Option.isSome_iff_exists.mp ?_))
    rcases hf.2.2.first with ⟨c,hc⟩ | hany
    · simp only [Pool.stepTask,hc]
      rfl
    · simp only [Pool.stepTask,hany,hg]
      rfl
  | requestWait | awaitWait | releaseWait | getAnyLast | cancelled => simp [Fetching,hg] at hf

end Calls

end LoneCall
end SodaPool
