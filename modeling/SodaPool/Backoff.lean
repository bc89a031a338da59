import Mathlib.Algebra.Order.Group.Abs
import Mathlib.Algebra.Order.Group.Int
import Mathlib.Data.Nat.Bitwise
import SodaPool.StdTypes

/-!
# Backoff and the failure count in the test time

The time of the next test of a broken address carries, in the low byte of its
nanosecond field, how often the address has failed. Both bounds of the field are
multiples of 256, so overwriting that byte never leaves the field's range.
-/

namespace SodaPool

/-- Seconds to wait after the given number of failures; the subtraction saturates. -/
def calculateBackoff (failedTimes : UInt8) : ℕ := 2^(min (failedTimes.toNat-1) 6)

theorem calculateBackoff_le (failedTimes : UInt8) : calculateBackoff failedTimes ≤ 64 :=
  Nat.pow_le_pow_right (by decide) (min_le_right _ 6)

theorem calculateBackoff_mono {n m : UInt8} (h : n ≤ m) :
    calculateBackoff n ≤ calculateBackoff m := by
  have hle : n.toNat ≤ m.toNat := UInt8.le_iff_toNat_le.mp h
  exact Nat.pow_le_pow_right (by decide) (by omega)

/-- The nanosecond field with its low byte replaced by the failure count. -/
def retiresNanos (nanos : ℕ) (failedTimes : UInt8) : ℕ :=
  nanos &&& 0xFFFFFF00 ||| failedTimes.toNat

theorem testBit_mask (i : ℕ) : Nat.testBit 0xFFFFFF00 i = (decide (8 ≤ i) && decide (i-8 < 24)) := by
  rw [show 0xFFFFFF00 = 2^8*(2^24-1) from rfl,Nat.testBit_two_pow_mul,Nat.testBit_two_pow_sub_one]

theorem retiresNanos_eq {nanos : ℕ} (h : nanos < 2^32) (failedTimes : UInt8) :
    retiresNanos nanos failedTimes = 256*(nanos/256) + failedTimes.toNat := by
  have hn : failedTimes.toNat < 2^8 := failedTimes.toNat_lt
  apply Nat.eq_of_testBit_eq
  intro i
  rw [show 256 = 2^8 from rfl,Nat.testBit_two_pow_mul_add _ hn,retiresNanos,Nat.testBit_or,
    Nat.testBit_and,testBit_mask]
  rcases Nat.lt_or_ge i 8 with hi | hi
  · simp [hi,Nat.not_le.mpr hi]
  · have hlow : failedTimes.toNat.testBit i = false :=
      Nat.testBit_lt_two_pow (hn.trans_le (Nat.pow_le_pow_right (by decide) hi))
    have hhigh (hge : ¬ i-8 < 24) : nanos.testBit i = false :=
      Nat.testBit_lt_two_pow (h.trans_le (Nat.pow_le_pow_right (by decide) (by omega)))
    rw [hlow,Nat.testBit_div_two_pow,if_neg (Nat.not_lt.mpr hi),Nat.sub_add_cancel hi]
    by_cases hw : i-8 < 24
    · simp [hi,hw]
    · simp [hhigh hw]

theorem retiresNanos_lt {nanos : ℕ} (h : nanos < 2000000000) (failedTimes : UInt8) :
    retiresNanos nanos failedTimes < 2000000000 := by
  have hn := failedTimes.toNat_lt
  rw [retiresNanos_eq (by omega)]
  omega

/-- `set_retires`: its `expect` never fires, see `withNanosecond_retires`. -/
def setRetires (t : DateTime) (failedTimes : UInt8) : DateTime :=
  ⟨t.secs,retiresNanos t.nanosecond failedTimes,retiresNanos_lt t.nanosecond_lt failedTimes⟩

theorem withNanosecond_retires (t : DateTime) (failedTimes : UInt8) :
    t.withNanosecond (retiresNanos t.nanosecond failedTimes) = some (setRetires t failedTimes) :=
  dif_pos (retiresNanos_lt t.nanosecond_lt failedTimes)

def getRetires (t : DateTime) : UInt8 := UInt8.ofNat (t.nanosecond &&& 0xFF)

theorem setRetires_nanosecond (t : DateTime) (failedTimes : UInt8) :
    (setRetires t failedTimes).nanosecond = 256*(t.nanosecond/256) + failedTimes.toNat :=
  retiresNanos_eq (t.nanosecond_lt.trans (by decide)) failedTimes

/-- A billion is a multiple of 256, so the field stays on its side of it. -/
theorem setRetires_nanosecond_lt_iff (t : DateTime) (failedTimes : UInt8) :
    (setRetires t failedTimes).nanosecond < 1000000000 ↔ t.nanosecond < 1000000000 := by
  have hn : failedTimes.toNat < 256 := failedTimes.toNat_lt
  rw [setRetires_nanosecond]
  omega

@[simp] theorem getRetires_setRetires (t : DateTime) (failedTimes : UInt8) :
    getRetires (setRetires t failedTimes) = failedTimes := by
  have hn : failedTimes.toNat < 256 := failedTimes.toNat_lt
  apply UInt8.toNat.inj
  rw [getRetires,setRetires_nanosecond,show 0xFF = 2^8-1 from rfl,Nat.and_two_pow_sub_one_eq_mod]
  simp only [UInt8.toNat_ofNat']
  omega

/-- The count displaces the time by at most 255 nanoseconds. -/
theorem abs_nanos_setRetires_sub (t : DateTime) (failedTimes : UInt8) :
    |(setRetires t failedTimes).nanos - t.nanos| ≤ 255 := by
  have hn : failedTimes.toNat < 256 := failedTimes.toNat_lt
  have hsecs : (setRetires t failedTimes).secs = t.secs := rfl
  simp only [DateTime.nanos,setRetires_nanosecond,hsecs]
  rw [abs_le]
  constructor <;> push_cast <;> omega

/-- Only `from_failed_times` makes trackers, from a reading of the clock, so the time
in a tracker is never a leap second. -/
structure BackoffTracker where
  nextTestTime : DateTime
  noLeap : nextTestTime.nanosecond < 1000000000
  deriving DecidableEq

namespace BackoffTracker

def fromFailedTimes (now : ℕ) (failedTimes : UInt8) : BackoffTracker where
  nextTestTime := setRetires ((DateTime.utc now).addSecs (calculateBackoff failedTimes)) failedTimes
  noLeap := by
    have hn : failedTimes.toNat < 256 := failedTimes.toNat_lt
    have hfield : ((DateTime.utc now).addSecs (calculateBackoff failedTimes)).nanosecond =
        now%1000000000 := rfl
    rw [setRetires_nanosecond,hfield]
    omega

/-- Without leap seconds the derived order is the order in time. -/
theorem nextTestTime_le_iff (t u : BackoffTracker) :
    t.nextTestTime ≤ u.nextTestTime ↔ t.nextTestTime.nanos ≤ u.nextTestTime.nanos := by
  have ht := t.noLeap
  have hu := u.noLeap
  rw [DateTime.le_iff_rank]
  simp only [DateTime.rank,DateTime.nanos]
  omega

theorem nextTestTime_le_utc_iff (t : BackoffTracker) (now : ℕ) :
    t.nextTestTime ≤ DateTime.utc now ↔ t.nextTestTime.nanos ≤ now := by
  have ht := t.noLeap
  rw [DateTime.le_iff_rank]
  simp only [DateTime.rank,DateTime.nanos,DateTime.utc]
  omega

def failedTimes (t : BackoffTracker) : UInt8 := getRetires t.nextTestTime

@[simp] theorem failedTimes_fromFailedTimes (now : ℕ) (n : UInt8) :
    (fromFailedTimes now n).failedTimes = n := getRetires_setRetires _ n

theorem abs_nextTestTime_sub (now : ℕ) (n : UInt8) :
    |(fromFailedTimes now n).nextTestTime.nanos - (now + calculateBackoff n*1000000000)| ≤ 255 := by
  have h := abs_nanos_setRetires_sub ((DateTime.utc now).addSecs (calculateBackoff n)) n
  rwa [DateTime.nanos_addSecs,DateTime.nanos_utc] at h

/-- At one reading of the clock, more failures make for a later test: by the seconds, or
where these no longer grow, by the count itself. -/
theorem fromFailedTimes_lt (now : ℕ) {n m : UInt8} (h : n < m) :
    (fromFailedTimes now n).nextTestTime < (fromFailedTimes now m).nextTestTime := by
  have hcount : n.toNat < m.toNat := UInt8.lt_iff_toNat_lt.mp h
  have hback : calculateBackoff n ≤ calculateBackoff m :=
    calculateBackoff_mono (UInt8.le_of_lt h)
  have hn : n.toNat < 256 := n.toNat_lt
  have hfield (k : UInt8) : (fromFailedTimes now k).nextTestTime.nanosecond =
      256*(now%1000000000/256) + k.toNat := setRetires_nanosecond _ k
  have hsecs (k : UInt8) : (fromFailedTimes now k).nextTestTime.secs =
      (now/1000000000 : ℕ) + calculateBackoff k := rfl
  rw [← not_le,DateTime.le_iff_rank,DateTime.rank,DateTime.rank,hfield,hfield,hsecs,hsecs]
  omega

end BackoffTracker

/-- A broken address with the time of its next test. The derived order looks at the
time first and at the address last. -/
structure DelayedAddress where
  tracker : BackoffTracker
  address : IpAddr
  deriving DecidableEq

namespace DelayedAddress

abbrev nextTestTime (d : DelayedAddress) : DateTime := d.tracker.nextTestTime

def failedTimes (d : DelayedAddress) : UInt8 := d.tracker.failedTimes

instance : LinearOrder DelayedAddress :=
  LinearOrder.lift' (fun d => toLex (d.nextTestTime,d.address)) (by
    rintro ⟨⟨t,ht⟩,a⟩ ⟨⟨u,hu⟩,b⟩ h
    simpa using h)

theorem nextTestTime_le {d e : DelayedAddress} (h : d ≤ e) : d.nextTestTime ≤ e.nextTestTime := by
  rcases Prod.Lex.toLex_le_toLex.mp h with h | h
  · exact le_of_lt h
  · exact le_of_eq h.1

theorem lt_of_nextTestTime_lt {d e : DelayedAddress} (h : d.nextTestTime < e.nextTestTime) : d < e :=
  Prod.Lex.toLex_lt_toLex.mpr (.inl h)

/-- `From<IpAddr>`: an address that has failed once. -/
def ofAddress (now : ℕ) (address : IpAddr) : DelayedAddress :=
  ⟨BackoffTracker.fromFailedTimes now 1,address⟩

end DelayedAddress

/-- The count is packed into the time without loss: it is read back as it was, and the time
keeps its second, its side of a leap second and all but 255 nanoseconds. At one reading of
the clock the trackers of more failures stand above those of fewer, whatever the address. -/
theorem packing_lossless :
    (∀ (t : DateTime) (n : UInt8),
      t.withNanosecond (retiresNanos t.nanosecond n) = some (setRetires t n) ∧
        getRetires (setRetires t n) = n ∧ (setRetires t n).secs = t.secs ∧
        ((setRetires t n).nanosecond < 1000000000 ↔ t.nanosecond < 1000000000) ∧
        |(setRetires t n).nanos - t.nanos| ≤ 255) ∧
      ∀ now : ℕ, (∀ n : UInt8, (BackoffTracker.fromFailedTimes now n).failedTimes = n ∧
          |(BackoffTracker.fromFailedTimes now n).nextTestTime.nanos -
            (now + calculateBackoff n*1000000000)| ≤ 255) ∧
        ∀ (n m : UInt8) (a b : IpAddr), n < m →
          (⟨BackoffTracker.fromFailedTimes now n,a⟩ : DelayedAddress) <
            ⟨BackoffTracker.fromFailedTimes now m,b⟩ := by
  constructor
  · intro t n
    exact ⟨withNanosecond_retires t n,getRetires_setRetires t n,rfl,
      setRetires_nanosecond_lt_iff t n,abs_nanos_setRetires_sub t n⟩
  · intro now
    constructor
    · intro n
      exact ⟨BackoffTracker.failedTimes_fromFailedTimes now n,BackoffTracker.abs_nextTestTime_sub now n⟩
    · intro n m a b h
      exact DelayedAddress.lt_of_nextTestTime_lt (BackoffTracker.fromFailedTimes_lt now h)

/-- The seconds no longer grow from the seventh failure on, the count still does. -/
theorem packing_lossless_saturated :
    (⟨BackoffTracker.fromFailedTimes 0 7,.v4 2⟩ : DelayedAddress) <
      ⟨BackoffTracker.fromFailedTimes 0 8,.v4 1⟩ :=
  (packing_lossless.2 0).2 7 8 (.v4 2) (.v4 1) (by decide)

end SodaPool
