import SodaPool.Attempts
import SodaPool.Blame

/-!
# A policy with a limit

The counter that a policy is asked with is the number of the attempt, as long as it fits into
eight bits. So a policy that gives up at some number is obeyed, and its requests do not panic.
-/

namespace SodaPool
namespace Limit

open Transition Clients

variable {π Channel Response : Type}

/-- The policy gives up at the attempt `n`. -/
def Limits (n : ℕ) (policy : RetryPolicy) : Prop :=
  ∀ e (tries : UInt8), tries.toNat = n → (policy e tries).2 = .doNotRetry

/-- Where a request stands in its attempts, of which it makes at most `n`. The counter is the
number of the attempt. -/
def Within (n : ℕ) (x : Session Channel Response) : Prop :=
  match x.loop with
  | some (.head tries) | some (.sleep tries _) =>
    tries.toNat = x.round ∧ x.attempted.length = x.round ∧ x.round < n
  | some (.getChannel tries) =>
    tries.toNat = x.round ∧ x.attempted.length+1 = x.round ∧ x.round ≤ n
  | some (.call tries _ _) => tries.toNat = x.round ∧ x.attempted.length = x.round ∧ x.round ≤ n
  | some (.reportBroken tries _ _ time) => tries.toNat = x.round ∧ x.attempted.length = x.round ∧
      x.round ≤ n ∧ (time ≠ .doNotRetry → x.round < n)
  | some (.returned _) | none => x.attempted.length ≤ x.round ∧ x.round ≤ n
  | some .panicked => False

theorem Within.le {n : ℕ} {x : Session Channel Response} (h : Within n x) :
    x.attempted.length ≤ x.round ∧ x.round ≤ n := by
  unfold Within at h
  split at h <;> first | exact h.elim | omega

/-- An attempt has failed, and there is another one only where the policy allows it. -/
theorem within_next {n : ℕ} {x : Session Channel Response} {tries : UInt8}
    {a : WithRetry.Answer Response Channel} (e : Status) {time : RetryTime}
    (ha : (x.next (WithRetry.next tries e time) a).attempted = x.attempted)
    (htries : tries.toNat = x.round) (hgiven : x.attempted.length = x.round) (hle : x.round ≤ n)
    (hagain : time ≠ .doNotRetry → x.round < n) :
    Within n (x.next (WithRetry.next tries e time) a) := by
  have hgiven' : (x.next (WithRetry.next tries e time) a).attempted.length = x.round := by
    rw [ha,hgiven]
  cases time with
  | doNotRetry => exact ⟨hgiven'.le,hle⟩
  | immediately => exact ⟨htries,hgiven',hagain (by simp)⟩
  | after duration => exact ⟨htries,hgiven',hagain (by simp)⟩

theorem Limits.again {n : ℕ} {policy : RetryPolicy} (h : Limits n policy) {e : Status}
    {tries : UInt8} {status : ServerStatus} {time : RetryTime}
    (hpolicy : policy e tries = (status,time)) (hle : tries.toNat ≤ n) (htime : time ≠ .doNotRetry) :
    tries.toNat < n := by
  refine lt_of_le_of_ne hle (fun heq => htime ?_)
  have hgives := h e tries heq
  rwa [hpolicy] at hgives

theorem within_hears {n : ℕ} {policy : RetryPolicy} {checks : Bool} {x : Session Channel Response}
    {p p' : WithRetry Response Channel} {a : WithRetry.Answer Response Channel}
    (hpolicy : Limits n policy) (hn : n ≤ 255) (hx : Within n x) (hp : x.loop = some p)
    (h : WithRetry.Goes policy checks p a p') : Within n (x.next p' a) := by
  simp only [Within,hp] at hx
  cases h with
  | @counts tries number hcount =>
    obtain ⟨htries,hgiven,hlt⟩ := hx
    obtain ⟨-,rfl⟩ := WithRetry.Counted.count_eq_some.mp hcount
    have hsucc : (tries+1).toNat = x.round+1 := by
      rw [UInt8.toNat_add,htries]
      exact Nat.mod_eq_of_lt (Nat.lt_succ_of_le (hlt.trans_le hn))
    exact ⟨hsucc,congrArg (· + 1) hgiven,hlt⟩
  | @overflows tries hcount =>
    obtain ⟨htries,-,hlt⟩ := hx
    obtain ⟨-,rfl⟩ := WithRetry.Counted.count_eq_none.mp hcount
    have hlast : (255 : UInt8).toNat = 255 := rfl
    omega
  | finds =>
    obtain ⟨htries,hgiven,hle⟩ := hx
    refine ⟨htries,?_,hle⟩
    simp [Session.next,hgiven]
  | exhausts =>
    obtain ⟨-,hgiven,hle⟩ := hx
    exact ⟨Nat.le_of_succ_le hgiven.le,hle⟩
  | succeeds =>
    obtain ⟨-,hgiven,hle⟩ := hx
    exact ⟨hgiven.le,hle⟩
  | dead hasked =>
    obtain ⟨htries,hgiven,hle⟩ := hx
    have hagain (htime : _ ≠ RetryTime.doNotRetry) : x.round < n :=
      htries ▸ hpolicy.again hasked (htries.trans_le hle) htime
    exact ⟨htries,hgiven,hle,hagain⟩
  | alive hasked =>
    obtain ⟨htries,hgiven,hle⟩ := hx
    have hagain (htime : _ ≠ RetryTime.doNotRetry) : x.round < n :=
      htries ▸ hpolicy.again hasked (htries.trans_le hle) htime
    exact within_next _ rfl htries hgiven hle hagain
  | reported =>
    obtain ⟨htries,hgiven,hle,hagain⟩ := hx
    exact within_next _ rfl htries hgiven hle hagain
  | slept => exact hx

section Run

variable [DecidableEq π] {pool : ℕ → π} {policy : ℕ → RetryPolicy} {checks : Bool}

theorem within_step {s s' : Clients π Channel Response} {x : Act π Channel Response} {k n : ℕ}
    (hpolicy : Limits n (policy k)) (hn : n ≤ 255) (hs : Within n (s.session k))
    (h : step pool policy checks s x = some s') : Within n (s'.session k) := by
  have hfares := (goes_of_step h).fares k
  generalize s'.session k = y at hfares
  cases hfares with
  | still => exact hs
  | gone => exact hs.le
  | hears hx hp hheard hgoes => exact within_hears hpolicy hn hs hp hgoes

/-- A limit is kept: a request whose policy gives up at the attempt `n` makes at most `n` of them,
whatever else is done, and its counter never overflows. Its policy is asked with the number of
the attempt. -/
theorem limited_of_run {w : World π Channel} {u : Clients π Channel Response}
    {xs : List (Act π Channel Response)} {k n : ℕ} (hpos : 0 < n) (hn : n ≤ 255)
    (hpolicy : Limits n (policy k))
    (hr : run (step pool policy checks) (start w) xs = some u) :
    (u.session k).round ≤ n ∧ (u.session k).attempted.length ≤ n ∧
      (u.session k).loop ≠ some .panicked ∧
        ∀ tries ip channel, (u.session k).loop = some (.call tries ip channel) →
          tries.toNat = (u.session k).attempted.length := by
  have hstart : Within n ((start w : Clients π Channel Response).session k) := ⟨rfl,rfl,hpos⟩
  have hwithin : Within n (u.session k) :=
    run_invariant (I := fun u => Within n (u.session k)) (P := fun _ _ => True)
      (fun _ _ _ hs _ h => within_step hpolicy hn hs h) hstart
      (along_of_forall (fun _ _ _ => trivial) _) hr
  obtain ⟨hgiven,hle⟩ := hwithin.le
  refine ⟨hle,hgiven.trans hle,fun hloop => ?_,fun tries ip channel hloop => ?_⟩
  · simp [Within,hloop] at hwithin
  · simp only [Within,hloop] at hwithin
    exact hwithin.1.trans hwithin.2.1.symm

/-- Two attempts, and both fail. -/
def twice : RetryPolicy := fun _ tries => (.alive,if tries = 2 then .doNotRetry else .immediately)

theorem limited_twice : ∃ u : Clients Unit ℕ Unit,
    run (step (fun _ => ()) (fun _ => twice) true) (start World.init)
      (Blame.failing ++ [.goOn 0,.getChannel 0 { now := 0 },.answered 0,
        .responded 0 (.error WithRetry.refused)]) = some u ∧
      (u.session 0).loop = some (.returned (.error WithRetry.refused)) ∧
      (u.session 0).round ≤ 2 := by
  obtain ⟨u,hu,hloop⟩ : ∃ u : Clients Unit ℕ Unit,
      run (step (fun _ => ()) (fun _ => twice) true) (start World.init)
        (Blame.failing ++ [.goOn 0,.getChannel 0 { now := 0 },.answered 0,
          .responded 0 (.error WithRetry.refused)]) = some u ∧
        (u.session 0).loop = some (.returned (.error WithRetry.refused)) := ⟨_,rfl,rfl⟩
  have hlimits : Limits 2 twice := fun _ _ h => if_pos (UInt8.toNat_inj.mp h)
  exact ⟨u,hu,hloop,(limited_of_run (by decide) (by decide) hlimits hu).1⟩

end Run

end Limit
end SodaPool
