import SodaPool.BrokenEndpoints

/-!
# A server that stays down

An address is added once and then fails every test of the doctor. The failure count
lives in one byte of the test time, so an outage of any length has to be followed
test by test.
-/

namespace SodaPool

open Containers BrokenEndpoints

/-- The heap has the same entries for `a`. -/
def SameFor (a : IpAddr) (b b' : BrokenEndpoints) : Prop :=
  b'.addresses.filter (fun d => decide (d.address = a)) =
    b.addresses.filter (fun d => decide (d.address = a))

/-- `Outage checks a k t overflow heap`: after `add_address a`, the doctor has tested `a`
for `k` times and failed, last at the clock reading `t`. Other addresses come and go
between any two steps. There is no heap after a panic. -/
inductive Outage (checks : Bool) (a : IpAddr) : ℕ → ℕ → Bool → Option BrokenEndpoints → Prop
  | added (b : BrokenEndpoints) (now : ℕ) : Outage checks a 0 now false (some (b.addAddress now a))
  | others {k t : ℕ} {o : Bool} {b b' : BrokenEndpoints} :
      Outage checks a k t o (some b) → SameFor a b b' → Outage checks a k t o (some b')
  | failed {k t now now' : ℕ} {o : Bool} {b b' b'' : BrokenEndpoints} {d : DelayedAddress} :
      Outage checks a k t o (some b) → b.nextRound now = .found d b' → d.address = a →
      SameFor a b' b'' →
      Outage checks a (k+1) now' (o || decide (d.failedTimes = 255)) (b''.reAddAddress checks now' d)

namespace Outage

/-- No step overflowed, and the next test is `min (2^k) 64` seconds after the last failure. -/
def BacksOff (a : IpAddr) (k t : ℕ) (overflow : Bool) (heap : Option BrokenEndpoints) : Prop :=
  overflow = false ∧ ∃ b d, heap = some b ∧
    b.addresses.filter (fun d => decide (d.address = a)) = [d] ∧
    |d.nextTestTime.nanos - (t + (min (2^k) 64 : ℕ)*1000000000)| ≤ 255

/-- Up to the 254th failure the only entry of `a` carries the count `k+1`. -/
def Counted (a : IpAddr) (k t : ℕ) (overflow : Bool) (heap : Option BrokenEndpoints) : Prop :=
  overflow = false ∧ ∃ b, heap = some b ∧
    b.addresses.filter (fun d => decide (d.address = a)) =
      [⟨BackoffTracker.fromFailedTimes t (UInt8.ofNat (k+1)),a⟩]

theorem filter_insert (b : BrokenEndpoints) (d : DelayedAddress) :
    (b.insert d).addresses.filter (fun e => decide (e.address = d.address)) = [d] :=
  filter_eq_putLast DelayedAddress.address d b.addresses

theorem failedTimes_count (t k : ℕ) (a : IpAddr) :
    (⟨BackoffTracker.fromFailedTimes t (UInt8.ofNat (k+1)),a⟩ : DelayedAddress).failedTimes =
      UInt8.ofNat (k+1) :=
  BackoffTracker.failedTimes_fromFailedTimes t _

theorem ofNat_succ (k : ℕ) : UInt8.ofNat (k+1) + 1 = UInt8.ofNat (k+1+1) := by
  rw [UInt8.ofNat_add (k+1) 1]
  rfl

theorem ofNat_eq_full {k : ℕ} (hk : k ≤ 254) : UInt8.ofNat (k+1) = 255 ↔ k = 254 := by
  rw [← UInt8.toNat_inj]
  simp only [UInt8.toNat_ofNat',UInt8.reduceToNat]
  omega

/-- One failed test takes the counted entry and puts it back with one failure more; the
count is full at the 254th failure. -/
theorem counted_step (checks : Bool) (now' : ℕ) (b'' : BrokenEndpoints) {a : IpAddr}
    {k t now : ℕ} {o : Bool} {b b' : BrokenEndpoints} {d : DelayedAddress} (hk : k ≤ 254)
    (h : Counted a k t o (some b)) (hround : b.nextRound now = .found d b') (hd : d.address = a) :
    (o || decide (d.failedTimes = 255)) = decide (k = 254) ∧
      (k < 254 → Counted a (k+1) now' false (b''.reAddAddress checks now' d)) := by
  obtain ⟨rfl,b₀,hb,hentry⟩ := h
  cases hb
  have hmem : d ∈ b.addresses.filter (fun d => decide (d.address = a)) :=
    List.mem_filter.mpr ⟨(nextRound_eq_found.mp hround).1.1,by simpa using hd⟩
  rw [hentry,List.mem_singleton] at hmem
  have hcount : d.failedTimes = UInt8.ofNat (k+1) := by rw [hmem,failedTimes_count]
  have hfull := ofNat_eq_full hk
  refine ⟨by simp only [hcount,hfull,Bool.false_or],fun hlt => ?_⟩
  have hnot : ¬ (checks = true ∧ UInt8.ofNat (k+1) = 255) := by
    rintro ⟨-,h255⟩
    exact absurd (hfull.mp h255) (by omega)
  refine ⟨rfl,_,by rw [reAddAddress,succFailCount,hcount,if_neg hnot,Option.map_some],?_⟩
  subst hd
  rw [ofNat_succ]
  exact filter_insert b'' ⟨BackoffTracker.fromFailedTimes now' (UInt8.ofNat (k+1+1)),d.address⟩

/-- What `k` failures leave behind: the counted entry, or an overflow. -/
theorem counted_of_outage {checks : Bool} {a : IpAddr} {k t : ℕ} {o : Bool}
    {heap : Option BrokenEndpoints} (h : Outage checks a k t o heap) :
    (k ≤ 254 → Counted a k t o heap) ∧ (254 < k → o = true) := by
  induction h with
  | added b now =>
    exact ⟨fun _ => ⟨rfl,_,rfl,filter_insert b ⟨BackoffTracker.fromFailedTimes now 1,a⟩⟩,
      fun hk => absurd hk (by decide)⟩
  | @others k t o b b' h hsame ih =>
    refine ⟨fun hk => ?_,ih.2⟩
    obtain ⟨ho,b₀,hb,hentry⟩ := ih.1 hk
    cases hb
    exact ⟨ho,b',rfl,hsame.trans hentry⟩
  | @failed k t now now' o b b' b'' d h hround hd hsame ih =>
    constructor
    · intro hk
      have hstep := counted_step checks now' b'' (by omega) (ih.1 (by omega)) hround hd
      rw [hstep.1,decide_eq_false (by omega)]
      exact hstep.2 (by omega)
    · intro hk
      rcases Nat.lt_or_ge 254 k with hlt | hle
      · simp [ih.2 hlt]
      · have hstep := counted_step checks now' b'' hle (ih.1 hle) hround hd
        rw [hstep.1]
        exact decide_eq_true (by omega)

theorem calculateBackoff_ofNat {k : ℕ} (hk : k ≤ 254) :
    calculateBackoff (UInt8.ofNat (k+1)) = min (2^k) 64 := by
  have htoNat : (UInt8.ofNat (k+1)).toNat = k+1 := by
    rw [UInt8.toNat_ofNat']
    omega
  rw [calculateBackoff,htoNat,Nat.add_sub_cancel]
  rcases Nat.le_total k 6 with h | h
  · have hp : 2^k ≤ 64 := (Nat.pow_le_pow_right (by decide) h : 2^k ≤ 2^6)
    rw [Nat.min_eq_left h,Nat.min_eq_left hp]
  · have hp : 64 ≤ 2^k := (Nat.pow_le_pow_right (by decide) h : 2^6 ≤ 2^k)
    rw [Nat.min_eq_right h,Nat.min_eq_right hp]
    rfl

theorem backsOff_of_counted {a : IpAddr} {k t : ℕ} {o : Bool} {heap : Option BrokenEndpoints}
    (hk : k ≤ 254) (h : Counted a k t o heap) : BacksOff a k t o heap := by
  obtain ⟨ho,b,hb,hentry⟩ := h
  refine ⟨ho,b,_,hb,hentry,?_⟩
  have hdelay := BackoffTracker.abs_nextTestTime_sub t (UInt8.ofNat (k+1))
  rwa [calculateBackoff_ofNat hk] at hdelay

/-- An outage backs off as documented for exactly its first 254 failed tests. -/
theorem backsOff_iff {checks : Bool} {a : IpAddr} {k t : ℕ} {o : Bool}
    {heap : Option BrokenEndpoints} (h : Outage checks a k t o heap) :
    BacksOff a k t o heap ↔ k ≤ 254 := by
  obtain ⟨hcounted,hover⟩ := counted_of_outage h
  constructor
  · rintro ⟨ho,-⟩
    by_contra hk
    rw [hover (by omega)] at ho
    cases ho
  · intro hk
    exact backsOff_of_counted hk (hcounted hk)

/-- The heap that holds one entry and nothing else. -/
def single (d : DelayedAddress) : BrokenEndpoints := ⟨[d],.stored⟩

/-- Alone in the heap, an entry is found once it is due. -/
theorem nextRound_single (d : DelayedAddress) :
    (single d).nextRound d.nextTestTime.nanos.toNat = .found d ⟨[],.stored⟩ := by
  have hdue : d.nextTestTime ≤ DateTime.utc d.nextTestTime.nanos.toNat :=
    (d.tracker.nextTestTime_le_utc_iff _).mpr (Int.self_le_toNat _)
  exact nextRound_eq_found.mpr ⟨⟨by simp [single],by simp [single]⟩,hdue,by simp [single]⟩

/-- When an entry is due. -/
def dueAt (t : ℕ) (n : UInt8) : ℕ := (BackoffTracker.fromFailedTimes t n).nextTestTime.nanos.toNat

/-- A test of the only entry that fails as soon as the entry is due. -/
theorem failed_single {checks : Bool} {a : IpAddr} {k t : ℕ} {o : Bool} {n : UInt8}
    (h : Outage checks a k t o (some (single ⟨BackoffTracker.fromFailedTimes t n,a⟩))) :
    Outage checks a (k+1) (dueAt t n) (o || decide (n = 255))
      ((succFailCount checks n).map
        (fun m => single ⟨BackoffTracker.fromFailedTimes (dueAt t n) m,a⟩)) := by
  have hcount : (⟨BackoffTracker.fromFailedTimes t n,a⟩ : DelayedAddress).failedTimes = n :=
    BackoffTracker.failedTimes_fromFailedTimes t n
  have hnext : Outage checks a (k+1) (dueAt t n) _ _ := .failed h (nextRound_single _) rfl rfl
  rw [reAddAddress,hcount] at hnext
  exact hnext

/-- Outages of every length up to 254 exist, whatever the build checks. -/
theorem exists_outage (checks : Bool) (a : IpAddr) {k : ℕ} (hk : k ≤ 254) :
    ∃ t, Outage checks a k t false
      (some (single ⟨BackoffTracker.fromFailedTimes t (UInt8.ofNat (k+1)),a⟩)) := by
  induction k with
  | zero => exact ⟨0,.added empty 0⟩
  | succ k ih =>
    obtain ⟨t,h⟩ := ih (by omega)
    have hfull : ¬ UInt8.ofNat (k+1) = 255 := by
      rw [ofNat_eq_full (by omega)]
      omega
    have hnext := failed_single h
    rw [succFailCount,if_neg (fun hc => hfull hc.2),decide_eq_false hfull,ofNat_succ] at hnext
    exact ⟨_,hnext⟩

/-- The 255th failure adds one to 255: a build with checks panics, and one without tests
the address again after one second instead of 64. -/
theorem backsOff_fails :
    (∃ t, Outage true (.v4 1) 255 t true none ∧ ¬ BacksOff (.v4 1) 255 t true none) ∧
      ∃ t b, Outage false (.v4 1) 255 t true (some b) ∧ ¬ BacksOff (.v4 1) 255 t true (some b) ∧
        ∀ d ∈ b.addresses, d.nextTestTime.nanos ≤ t + 1000000255 := by
  have hnot (t : ℕ) (heap : Option BrokenEndpoints) : ¬ BacksOff (.v4 1) 255 t true heap := by
    intro h
    cases h.1
  constructor
  · obtain ⟨t,h⟩ := exists_outage true (.v4 1) (le_refl 254)
    exact ⟨_,failed_single h,hnot _ none⟩
  · obtain ⟨t,h⟩ := exists_outage false (.v4 1) (le_refl 254)
    have hfailed : Outage false (.v4 1) 255 (dueAt t 255) true
        (some (single ⟨BackoffTracker.fromFailedTimes (dueAt t 255) 0,.v4 1⟩)) := failed_single h
    refine ⟨_,_,hfailed,hnot _ _,?_⟩
    intro d hd
    have hd' := List.mem_singleton.mp hd
    subst hd'
    have hback : calculateBackoff 0 = 1 := rfl
    have hdelay := BackoffTracker.abs_nextTestTime_sub (dueAt t 255) 0
    rw [hback,abs_le] at hdelay
    change (BackoffTracker.fromFailedTimes (dueAt t 255) 0).nextTestTime.nanos ≤ _
    push_cast at hdelay
    omega

/-- Ten failures in a row, the last seven of them 64 seconds apart. -/
theorem backsOff_ten :
    ∃ t b, Outage true (.v6 1) 10 t false (some b) ∧ BacksOff (.v6 1) 10 t false (some b) := by
  obtain ⟨t,h⟩ := exists_outage true (.v6 1) (show 10 ≤ 254 by decide)
  exact ⟨t,_,h,(backsOff_iff h).mpr (by decide)⟩

end Outage
end SodaPool
