import Mathlib.Data.List.Rotate
import SodaPool.Backoff
import SodaPool.Containers
import SodaPool.Notify

/-!
# The heap of broken endpoints

`BrokenEndpoints` is a max-heap of delayed addresses under a mutex, with a notifier
for the task that tests them. Each function below is one critical section of the
mutex. `add_address_with_current_fail_count` reads the clock before it takes the
mutex, so it is split there: the entry is made first, then `insert` puts it in.
-/

namespace SodaPool

open Containers

structure BrokenEndpoints where
  addresses : List DelayedAddress
  notifier : Notify
  deriving DecidableEq

/-- What one round of the loop in `next_broken_ip_address` does. -/
inductive Round
  | found (entry : DelayedAddress) (rest : BrokenEndpoints)
  /-- Sleep for that many nanoseconds, or until notified. -/
  | sleep (durr : ℕ)
  | wait
  deriving DecidableEq

namespace BrokenEndpoints

def empty : BrokenEndpoints := ⟨[],.new⟩

/-- Only a heap that is not empty is worth a notification. -/
def replaceWith (b : BrokenEndpoints) (new : List DelayedAddress) : BrokenEndpoints :=
  ⟨new,if new.isEmpty then b.notifier else b.notifier.notifyOne⟩

/-- `BinaryHeap::iter` starts at the root and goes through the others in no order that is
promised: that of insertion, from some place on. -/
def iter (b : BrokenEndpoints) (order : ℕ) : List DelayedAddress :=
  match pop b.addresses with
  | none => []
  | some (root,rest) => root::rest.rotate order

def getAddress (b : BrokenEndpoints) (address : IpAddr) (order : ℕ) : Option DelayedAddress :=
  (b.iter order).find? (fun d => decide (d.address = address))

/-- The critical section of `add_address_with_current_fail_count`. -/
def insert (b : BrokenEndpoints) (d : DelayedAddress) : BrokenEndpoints :=
  ⟨putLast DelayedAddress.address d b.addresses,b.notifier.notifyOne⟩

def addAddress (b : BrokenEndpoints) (now : ℕ) (address : IpAddr) : BrokenEndpoints :=
  b.insert ⟨BackoffTracker.fromFailedTimes now 1,address⟩

/-- `u8` addition of one. A build with overflow checks panics where one without wraps. -/
def succFailCount (checks : Bool) (failedTimes : UInt8) : Option UInt8 :=
  if checks = true ∧ failedTimes = 255 then none else some (failedTimes+1)

def reAddAddress (checks : Bool) (b : BrokenEndpoints) (now : ℕ) (d : DelayedAddress) :
    Option BrokenEndpoints :=
  (succFailCount checks d.failedTimes).map
    (fun n => b.insert ⟨BackoffTracker.fromFailedTimes now n,d.address⟩)

/-- One round: `peek` and `pop` see the same entry, as the mutex is held throughout. -/
def nextRound (b : BrokenEndpoints) (now : ℕ) : Round :=
  match pop b.addresses with
  | none => .wait
  | some (d,rest) =>
    if DateTime.utc now < d.nextTestTime then
      .sleep (d.nextTestTime.signedDurationSince (DateTime.utc now)).toNat
    else .found d { b with addresses := rest }

theorem iter_perm (b : BrokenEndpoints) (order : ℕ) : (b.iter order).Perm b.addresses := by
  unfold iter
  cases hp : pop b.addresses with
  | none => rw [pop_eq_none.mp hp]
  | some r =>
    obtain ⟨root,rest⟩ := r
    obtain ⟨⟨hroot,-⟩,rfl⟩ := pop_eq_some.mp hp
    exact ((List.rotate_perm _ order).cons root).trans (List.perm_cons_erase hroot).symm

theorem getAddress_eq_none {b : BrokenEndpoints} {a : IpAddr} {order : ℕ} :
    b.getAddress a order = none ↔ a ∉ keys DelayedAddress.address b.addresses := by
  simp [getAddress,(b.iter_perm order).mem_iff]

theorem getAddress_mem {b : BrokenEndpoints} {a : IpAddr} {order : ℕ} {d : DelayedAddress}
    (h : b.getAddress a order = some d) : d ∈ b.addresses ∧ d.address = a :=
  ⟨(b.iter_perm order).mem_iff.mp (List.mem_of_find?_eq_some h),by simpa using List.find?_some h⟩

/-- With one entry per address, `get_address` finds the entry. -/
theorem getAddress_of_mem {b : BrokenEndpoints} {d : DelayedAddress}
    (h : Unique DelayedAddress.address b.addresses) (hd : d ∈ b.addresses) (order : ℕ) :
    b.getAddress d.address order = some d := by
  cases hfind : b.getAddress d.address order with
  | none => exact absurd (List.mem_map_of_mem hd) (getAddress_eq_none.mp hfind)
  | some e =>
    obtain ⟨he,haddress⟩ := getAddress_mem hfind
    exact congrArg some (List.inj_on_of_nodup_map h he hd haddress)

theorem nextRound_eq_found {b b' : BrokenEndpoints} {now : ℕ} {d : DelayedAddress} :
    b.nextRound now = .found d b' ↔
      (d ∈ b.addresses ∧ ∀ e ∈ b.addresses, e ≤ d) ∧ d.nextTestTime ≤ DateTime.utc now ∧
        b' = { b with addresses := b.addresses.erase d } := by
  rw [nextRound]
  cases h : pop b.addresses with
  | none =>
    have hempty := pop_eq_none.mp h
    simp [hempty]
  | some r =>
    obtain ⟨m,rest⟩ := r
    obtain ⟨⟨hm,hmax⟩,rfl⟩ := pop_eq_some.mp h
    simp only
    split
    · rename_i hlt
      constructor
      · intro hc
        cases hc
      · rintro ⟨⟨hd,hdmax⟩,hdue,-⟩
        have hmd : m = d := le_antisymm (hdmax m hm) (hmax d hd)
        subst hmd
        exact absurd hlt (not_lt_of_ge hdue)
    · rename_i hge
      simp only [Round.found.injEq]
      constructor
      · rintro ⟨rfl,rfl⟩
        exact ⟨⟨hm,hmax⟩,not_lt.mp hge,rfl⟩
      · rintro ⟨⟨hd,hdmax⟩,-,rfl⟩
        have hmd : m = d := le_antisymm (hdmax m hm) (hmax d hd)
        subst hmd
        exact ⟨rfl,rfl⟩

theorem nextRound_eq_wait {b : BrokenEndpoints} {now : ℕ} :
    b.nextRound now = .wait ↔ b.addresses = [] := by
  rw [nextRound]
  cases h : pop b.addresses with
  | none => simpa using pop_eq_none.mp h
  | some r =>
    have hm := (pop_eq_some.mp h).1.1
    constructor
    · simp only
      split <;> intro hc <;> cases hc
    · intro he
      simp [he] at hm

/-- The loop sleeps until the test time of the entry it peeked. -/
theorem nextRound_eq_sleep {b : BrokenEndpoints} {now durr : ℕ}
    (h : b.nextRound now = .sleep durr) :
    ∃ d ∈ b.addresses, (∀ e ∈ b.addresses, e ≤ d) ∧ DateTime.utc now < d.nextTestTime ∧
      (now + durr : ℤ) = d.nextTestTime.nanos := by
  rw [nextRound] at h
  cases hp : pop b.addresses with
  | none => simp [hp] at h
  | some r =>
    obtain ⟨m,rest⟩ := r
    obtain ⟨⟨hm,hmax⟩,-⟩ := pop_eq_some.mp hp
    simp only [hp] at h
    split at h
    · rename_i hlt
      have hdurr := Round.sleep.inj h
      have hnanos : ¬ m.nextTestTime.nanos ≤ now :=
        (not_congr (m.tracker.nextTestTime_le_utc_iff now)).mp (not_le_of_gt hlt)
      rw [DateTime.signedDurationSince,DateTime.nanos_utc] at hdurr
      exact ⟨m,hm,hmax,hlt,by omega⟩
    · cases h

/-- What one round owes: the entry it takes is a next one to be due, and it waits only
while none is due, no longer than until the first is. -/
def EarliestDueFirst (b : BrokenEndpoints) (now : ℕ) : Prop :=
  match b.nextRound now with
  | .found d b' => d ∈ b.addresses ∧ b'.addresses = b.addresses.erase d ∧
      ∀ e ∈ b.addresses, d.nextTestTime ≤ e.nextTestTime
  | .sleep durr => (∀ e ∈ b.addresses, DateTime.utc now < e.nextTestTime) ∧
      ∃ d ∈ b.addresses, (∀ e ∈ b.addresses, d.nextTestTime ≤ e.nextTestTime) ∧
        (now + durr : ℤ) = d.nextTestTime.nanos
  | .wait => b.addresses = []

/-- The heap has the latest test time on top, so a round takes the earliest exactly when
there is no difference. -/
theorem earliestDueFirst_iff (b : BrokenEndpoints) (now : ℕ) :
    b.EarliestDueFirst now ↔
      ∀ d ∈ b.addresses, ∀ e ∈ b.addresses, d.nextTestTime = e.nextTestTime := by
  have hall {m : DelayedAddress} (hmax : ∀ e ∈ b.addresses, e ≤ m)
      (hmin : ∀ e ∈ b.addresses, m.nextTestTime ≤ e.nextTestTime) :
      ∀ d ∈ b.addresses, ∀ e ∈ b.addresses, d.nextTestTime = e.nextTestTime := by
    have hsame : ∀ e ∈ b.addresses, e.nextTestTime = m.nextTestTime := fun e he =>
      le_antisymm (DelayedAddress.nextTestTime_le (hmax e he)) (hmin e he)
    intro d hd e he
    rw [hsame d hd,hsame e he]
  rw [EarliestDueFirst]
  cases h : b.nextRound now with
  | found d b' =>
    obtain ⟨⟨hd,hmax⟩,-,rfl⟩ := nextRound_eq_found.mp h
    constructor
    · rintro ⟨-,-,hmin⟩
      exact hall hmax hmin
    · intro hsame
      exact ⟨hd,rfl,fun e he => le_of_eq (hsame d hd e he)⟩
  | sleep durr =>
    obtain ⟨m,hm,hmax,hlt,hdurr⟩ := nextRound_eq_sleep h
    constructor
    · rintro ⟨-,d,hd,hmin,hend⟩
      have hmd : m.nextTestTime ≤ d.nextTestTime :=
        (BackoffTracker.nextTestTime_le_iff m.tracker d.tracker).mpr (by rw [← hdurr,← hend])
      exact hall hmax (fun e he => hmd.trans (hmin e he))
    · intro hsame
      refine ⟨fun e he => ?_,m,hm,fun e he => le_of_eq (hsame m hm e he),hdurr⟩
      rw [hsame e he m hm]
      exact hlt
  | wait =>
    have hempty := nextRound_eq_wait.mp h
    simp [hempty]

/-- The heaps that `add_address`, `re_add_address` and `replace_with` can build. -/
inductive Built : BrokenEndpoints → Prop
  | empty : Built empty
  | add {b : BrokenEndpoints} (now : ℕ) (a : IpAddr) : Built b → Built (b.addAddress now a)
  | reAdd {b b' : BrokenEndpoints} (checks : Bool) (now : ℕ) (d : DelayedAddress) :
      Built b → b.reAddAddress checks now d = some b' → Built b'
  | replace {b : BrokenEndpoints} (new : List DelayedAddress) : Built b → Built (b.replaceWith new)

/-- Added at 0 s and at 4 s, the first address is due at 1 s. At 4.5 s the loop sleeps
until the second is due, and at 6 s it takes the second. -/
theorem earliestDueFirst_fails :
    ∃ b, Built b ∧ ¬ b.EarliestDueFirst 4500000000 ∧ ¬ b.EarliestDueFirst 6000000000 := by
  let b := (empty.addAddress 0 (.v4 1)).addAddress 4000000000 (.v4 2)
  have hsleep : b.nextRound 4500000000 = .sleep 500000001 := by decide
  have hfound : b.nextRound 6000000000 =
      .found ⟨BackoffTracker.fromFailedTimes 4000000000 1,.v4 2⟩ (empty.addAddress 0 (.v4 1)) := by
    decide
  refine ⟨b,.add _ _ (.add _ _ .empty),?_,?_⟩
  · rw [EarliestDueFirst,hsleep]
    rintro ⟨hnone,-⟩
    exact absurd (hnone ⟨BackoffTracker.fromFailedTimes 0 1,.v4 1⟩ (by decide)) (by decide)
  · rw [EarliestDueFirst,hfound]
    rintro ⟨-,-,hmin⟩
    exact absurd (hmin ⟨BackoffTracker.fromFailedTimes 0 1,.v4 1⟩ (by decide)) (by decide)

end BrokenEndpoints
end SodaPool
