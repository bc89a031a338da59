import SodaPool.Retry

/-!
# The number of the attempt

The counter of the retry loop is as wide as a policy takes it, eight bits, and nothing
bounds the loop. A build without overflow checks starts again at zero.
-/

namespace SodaPool
namespace WithRetry

open Transition

variable {Response Channel : Type}

/-- The loop, and on record the attempts it has begun, the numbers a policy was asked
with, and whether an increment has overflowed. -/
structure Counted (Response Channel : Type) where
  point : WithRetry Response Channel
  begun : ℕ
  tries : List UInt8
  overflowed : Bool

namespace Counted

def start : Counted Response Channel := ⟨.start,0,[],false⟩

/-- The number `should_retry` is called with in a step. -/
def asked : WithRetry Response Channel → Answer Response Channel → Option UInt8
  | .call tries _ _,.response (.error _) => some tries
  | _,_ => none

/-- The number an attempt increments. -/
def increments : WithRetry Response Channel → Option UInt8
  | .head tries => some tries
  | _ => none

def record (s : Counted Response Channel) (a : Answer Response Channel)
    (p : WithRetry Response Channel) : Counted Response Channel where
  point := p
  begun := s.begun + (increments s.point).toList.length
  tries := s.tries ++ (asked s.point a).toList
  overflowed := s.overflowed || increments s.point = some 255

def step (policy : RetryPolicy) (checks : Bool) (s : Counted Response Channel)
    (a : Answer Response Channel) : Option (Counted Response Channel) :=
  (s.point.step policy checks a).map (s.record a)

/-- What a policy may rely on. -/
structure Faithful (s : Counted Response Channel) : Prop where
  number : ∀ k t, s.tries[k]? = some t → t.toNat = min (k+1) 255
  sorted : s.tries.Pairwise (· ≤ ·)
  overflowed : s.overflowed = false
  point : s.point ≠ .panicked

/-- Where the loop stands, in attempts. The counter is their number modulo 256. -/
def Agrees (begun asked : ℕ) : WithRetry Response Channel → Prop
  | .head tries | .sleep tries _ | .reportBroken tries _ _ _ =>
    tries.toNat = begun%256 ∧ asked = begun
  | .getChannel tries | .call tries _ _ => tries.toNat = begun%256 ∧ asked+1 = begun
  | .returned _ => asked ≤ begun
  | .panicked => asked+1 = begun ∧ 256 ≤ begun

structure Counts (s : Counted Response Channel) : Prop where
  number : ∀ k t, s.tries[k]? = some t → t.toNat = (k+1)%256
  overflowed : s.overflowed = true ↔ 256 ≤ s.begun
  point : Agrees s.begun s.tries.length s.point

theorem agrees_next {begun asked : ℕ} {tries : UInt8} (e : Status) (time : RetryTime)
    (h : tries.toNat = begun%256 ∧ asked = begun) :
    Agrees begun asked (next tries e time : WithRetry Response Channel) := by
  cases time with
  | doNotRetry => exact h.2.le
  | immediately => exact h
  | after duration => exact h

theorem count_eq_some {checks : Bool} {tries n : UInt8} :
    count checks tries = some n ↔ ¬ (checks = true ∧ tries = 255) ∧ tries+1 = n := by
  simp [count]

theorem count_eq_none {checks : Bool} {tries : UInt8} :
    count checks tries = none ↔ checks = true ∧ tries = 255 := by
  simp [count]

/-- A step that neither begins an attempt nor asks the policy. -/
theorem Counts.quiet {s : Counted Response Channel} {a : Answer Response Channel}
    {p : WithRetry Response Channel} (hs : Counts s) (hincrements : increments s.point = none)
    (hasked : asked s.point a = none) (hp : Agrees s.begun s.tries.length p) :
    Counts (s.record a p) := by
  refine ⟨?_,?_,?_⟩ <;> simp only [record,hincrements,hasked,Option.toList_none,List.append_nil,
    List.length_nil,Nat.add_zero,reduceCtorEq,decide_false,Bool.or_false]
  · exact hs.number
  · exact hs.overflowed
  · exact hp

/-- A step that begins an attempt. -/
theorem Counts.begins {s : Counted Response Channel} {a : Answer Response Channel}
    {tries : UInt8} {p : WithRetry Response Channel} (hs : Counts s)
    (hpoint : s.point = .head tries)
    (hp : (tries+1).toNat = (s.begun+1)%256 → (tries = 255 → 256 ≤ s.begun+1) →
      s.tries.length = s.begun → Agrees (s.begun+1) s.tries.length p) :
    Counts (s.record a p) := by
  have hagrees := hs.point
  rw [hpoint] at hagrees
  obtain ⟨htries,hlength⟩ := hagrees
  have hsucc : (tries+1).toNat = (s.begun+1)%256 := by
    rw [UInt8.toNat_add,htries]
    simp
  have hlast : tries = 255 ↔ s.begun%256 = 255 := by
    rw [← htries,← UInt8.toNat_inj]
    rfl
  refine ⟨?_,?_,?_⟩ <;> simp only [record,hpoint,increments,asked,Option.toList_none,
    Option.toList_some,List.append_nil,List.length_singleton]
  · exact hs.number
  · have hover := hs.overflowed
    simp only [Bool.or_eq_true,decide_eq_true_eq,Option.some.injEq,hover,hlast]
    omega
  · exact hp hsucc (fun h => by have := hlast.mp h; omega) hlength

/-- A step that asks the policy. -/
theorem Counts.asks {s : Counted Response Channel} {tries : UInt8} {ip : IpAddr}
    {channel : Channel} {e : Status} {p : WithRetry Response Channel} (hs : Counts s)
    (hpoint : s.point = .call tries ip channel)
    (hp : tries.toNat = s.begun%256 → s.tries.length+1 = s.begun →
      Agrees s.begun (s.tries.length+1) p) :
    Counts (s.record (.response (.error e)) p) := by
  have hagrees := hs.point
  rw [hpoint] at hagrees
  obtain ⟨htries,hlength⟩ := hagrees
  refine ⟨?_,?_,?_⟩ <;> simp only [record,hpoint,increments,asked,Option.toList_none,
    Option.toList_some,List.length_nil,Nat.add_zero,reduceCtorEq,decide_false,Bool.or_false,
    List.length_append,List.length_singleton]
  · intro k t hk
    rcases Nat.lt_or_ge k s.tries.length with hlt | hge
    · rw [List.getElem?_append_left hlt] at hk
      exact hs.number k t hk
    · obtain ⟨hlen,hget⟩ := List.getElem?_eq_some_iff.mp hk
      have hlast : k = s.tries.length := by
        simp only [List.length_append,List.length_singleton] at hlen
        omega
      subst hlast
      have ht : tries = t := by simpa using hget
      rw [← ht,htries,hlength]
  · exact hs.overflowed
  · exact hp htries hlength

theorem Counts.step {policy : RetryPolicy} {checks : Bool} {s s' : Counted Response Channel}
    {a : Answer Response Channel} (hs : Counts s) (h : step policy checks s a = some s') :
    Counts s' := by
  obtain ⟨p,hp,rfl⟩ := Option.map_eq_some_iff.mp h
  have hagrees := hs.point
  generalize hpoint : s.point = point at hp hagrees
  cases goes_of_step hp with
  | counts hc =>
    obtain ⟨-,rfl⟩ := count_eq_some.mp hc
    exact hs.begins hpoint (fun hsucc _ hlength => ⟨hsucc,by rw [hlength]⟩)
  | overflows hc =>
    obtain ⟨-,rfl⟩ := count_eq_none.mp hc
    exact hs.begins hpoint (fun _ hlast hlength => ⟨by rw [hlength],hlast rfl⟩)
  | finds => exact hs.quiet (by rw [hpoint]; rfl) (by rw [hpoint]; rfl) hagrees
  | exhausts =>
    refine hs.quiet (by rw [hpoint]; rfl) (by rw [hpoint]; rfl) ?_
    exact (Nat.le_succ _).trans hagrees.2.le
  | succeeds =>
    refine hs.quiet (by rw [hpoint]; rfl) (by rw [hpoint]; rfl) ?_
    exact (Nat.le_succ _).trans hagrees.2.le
  | dead => exact hs.asks hpoint (fun htries hlength => ⟨htries,hlength⟩)
  | alive =>
    exact hs.asks hpoint (fun htries hlength => agrees_next _ _ ⟨htries,hlength⟩)
  | reported =>
    exact hs.quiet (by rw [hpoint]; rfl) (by rw [hpoint]; rfl) (agrees_next _ _ hagrees)
  | slept => exact hs.quiet (by rw [hpoint]; rfl) (by rw [hpoint]; rfl) hagrees

theorem counts_start : Counts (start : Counted Response Channel) where
  number k t h := by simp [start] at h
  overflowed := by simp [start]
  point := ⟨rfl,rfl⟩

theorem counts_of_run {policy : RetryPolicy} {checks : Bool} {u : Counted Response Channel}
    {answers : List (Answer Response Channel)}
    (hr : run (Counted.step policy checks) start answers = some u) : Counts u :=
  run_invariant (P := fun _ _ => True) (fun _ _ _ hI _ ht => hI.step ht) counts_start
    (along_of_forall (fun _ _ _ => trivial) _) hr

theorem Agrees.le {begun asked : ℕ} {p : WithRetry Response Channel} (h : Agrees begun asked p) :
    asked ≤ begun := by
  cases p <;> simp only [Agrees] at h <;> omega

/-- The numbers are what a policy may rely on exactly as long as no more than 255 attempts
have begun. -/
theorem faithful_iff {policy : RetryPolicy} {checks : Bool} {u : Counted Response Channel}
    {answers : List (Answer Response Channel)}
    (hr : run (Counted.step policy checks) start answers = some u) :
    Faithful u ↔ u.begun ≤ 255 := by
  have hu := counts_of_run hr
  constructor
  · intro hf
    have hover := hu.overflowed
    rw [hf.overflowed] at hover
    by_contra hlt
    exact absurd (hover.mpr (by omega)) (by decide)
  · intro hle
    have hlength := hu.point.le
    have hnumber (k : ℕ) (t : UInt8) (hk : u.tries[k]? = some t) : t.toNat = k+1 := by
      obtain ⟨hlt,-⟩ := List.getElem?_eq_some_iff.mp hk
      rw [hu.number k t hk,Nat.mod_eq_of_lt (by omega)]
    refine ⟨?_,?_,?_,?_⟩
    · intro k t hk
      obtain ⟨hlt,-⟩ := List.getElem?_eq_some_iff.mp hk
      rw [hnumber k t hk]
      omega
    · rw [List.pairwise_iff_getElem]
      intro i j hi hj hij
      rw [UInt8.le_iff_toNat_le,hnumber i _ (List.getElem?_eq_getElem hi),
        hnumber j _ (List.getElem?_eq_getElem hj)]
      omega
    · have hover := hu.overflowed
      cases ho : u.overflowed with
      | false => rfl
      | true => exact absurd (hover.mp ho) (by omega)
    · intro hp
      have hagrees := hu.point
      rw [hp] at hagrees
      exact absurd hagrees.2 (by omega)

/-- A policy without an end. -/
def again : RetryPolicy := fun _ _ => (.alive,.immediately)

/-- One attempt that fails. -/
def round : List (Answer Unit Unit) :=
  [.goOn,.channel (some (.v4 1,())),.response (.error refused)]

/-- Two attempts, of which the second one succeeds. -/
theorem faithful_second : ∃ u : Counted Unit Unit, run (Counted.step again true) start
    (round ++ [.goOn,.channel (some (.v4 1,())),.response (.ok ())]) = some u ∧
      u.tries = [1] ∧ Faithful u := by
  have hrun : ∃ u : Counted Unit Unit, run (Counted.step again true) start
      (round ++ [.goOn,.channel (some (.v4 1,())),.response (.ok ())]) = some u ∧
      u.tries = [1] ∧ u.begun = 2 := ⟨_,rfl,rfl,rfl⟩
  obtain ⟨u,hu,htries,hbegun⟩ := hrun
  exact ⟨u,hu,htries,(faithful_iff hu).mpr (by omega)⟩

theorem run_round {checks : Bool} {u : Counted Unit Unit} {t n : UInt8}
    (hpoint : u.point = .head t) (hc : count checks t = some n) :
    ∃ v, run (Counted.step again checks) u round = some v ∧ v.point = .head n ∧
      v.begun = u.begun+1 ∧ v.tries = u.tries ++ [n] := by
  simp [run,Counted.step,round,hpoint,hc,WithRetry.step,record,increments,asked,again,next]

theorem run_rounds (checks : Bool) {n : ℕ} (hn : n ≤ 255) :
    ∃ u : Counted Unit Unit, run (Counted.step again checks) start (List.replicate n round).flatten =
      some u ∧ u.point = .head (UInt8.ofNat n) ∧ u.begun = n := by
  induction n with
  | zero => exact ⟨start,rfl,rfl,rfl⟩
  | succ n ih =>
    obtain ⟨u,hu,hpoint,hbegun⟩ := ih (by omega)
    have hlast : UInt8.ofNat n ≠ 255 := by
      intro h
      have htoNat := congrArg UInt8.toNat h
      rw [UInt8.toNat_ofNat'] at htoNat
      have hval : (255 : UInt8).toNat = 255 := rfl
      omega
    have hc : count checks (UInt8.ofNat n) = some (UInt8.ofNat (n+1)) :=
      count_eq_some.mpr ⟨fun h => hlast h.2,by simp [UInt8.ofNat_add]⟩
    obtain ⟨v,hv,hpoint',hbegun',-⟩ := run_round hpoint hc
    refine ⟨v,?_,hpoint',by rw [hbegun',hbegun]⟩
    rw [List.replicate_succ',List.flatten_append,List.flatten_singleton]
    exact run_append.mpr ⟨u,hu,hv⟩

/-- A policy that retries at once for ever: the 256th attempt panics, or where overflow is
not checked, it is given out as attempt 0. -/
theorem faithful_fails :
    (∃ (policy : RetryPolicy) (answers : List (Answer Unit Unit)) (u : Counted Unit Unit),
      run (Counted.step policy true) start answers = some u ∧ u.point = .panicked ∧ ¬ Faithful u) ∧
      ∃ (policy : RetryPolicy) (answers : List (Answer Unit Unit)) (u : Counted Unit Unit),
        run (Counted.step policy false) start answers = some u ∧ u.tries[255]? = some 0 ∧
          ¬ Faithful u := by
  constructor
  · obtain ⟨u,hu,hpoint,-⟩ := run_rounds true (le_refl 255)
    have hlast : run (Counted.step again true) u [.goOn] = some (u.record .goOn .panicked) := by
      simp [run,Counted.step,hpoint,WithRetry.step,count]
    exact ⟨again,_,_,run_append.mpr ⟨u,hu,hlast⟩,rfl,fun hf => hf.point rfl⟩
  · obtain ⟨u,hu,hpoint,hbegun⟩ := run_rounds false (le_refl 255)
    have hc : count false (UInt8.ofNat 255) = some 0 := rfl
    obtain ⟨v,hv,-,-,htries⟩ := run_round hpoint hc
    have hlength : u.tries.length = 255 := by
      have hagrees := (counts_of_run hu).point
      rw [hpoint,hbegun] at hagrees
      exact hagrees.2
    have hzero : v.tries[255]? = some 0 := by
      rw [htries,List.getElem?_append_right (by rw [hlength]),hlength]
      rfl
    refine ⟨again,_,v,run_append.mpr ⟨u,hu,hv⟩,hzero,fun hf => ?_⟩
    exact absurd (hf.number 255 0 hzero) (by decide)

end Counted
end WithRetry
end SodaPool
