import SodaPool.BrokenEndpoints
import SodaPool.Transition

/-!
# The loop of `next_broken_ip_address`

The doctor looks at the heap under the mutex, gives the mutex back and parks. Any number
of other tasks add entries and replace the heap meanwhile. In such a critical section the
heap is changed first and the doctor notified after, so the mutex is held in between.
-/

namespace SodaPool

open Containers Transition

/-- The loop is at its head, or parked with or without a timer. -/
inductive NextBroken
  | lock
  | sleep (deadline : ℕ)
  | wait
  deriving DecidableEq

namespace NextBroken

/-- One poll of `notified`: the loop goes on, or stays where it is. -/
def await (b : BrokenEndpoints) (n : NextBroken) :
    Option (BrokenEndpoints × (DelayedAddress ⊕ NextBroken)) :=
  b.notifier.poll.map (fun r => ({ b with notifier := r.2 },.inr (if r.1 then .lock else n)))

/-- A timer that wins the `select!` drops the waiter. -/
def step (b : BrokenEndpoints) (now : ℕ) (timer : Bool) :
    NextBroken → Option (BrokenEndpoints × (DelayedAddress ⊕ NextBroken))
  | .lock =>
    match b.nextRound now with
    | .found entry rest => some (rest,.inl entry)
    | .sleep durr => some (b,.inr (.sleep (now+durr)))
    | .wait => some (b,.inr .wait)
  | .sleep deadline =>
    if timer then
      if deadline ≤ now then some ({ b with notifier := b.notifier.drop },.inr .lock) else none
    else await b (.sleep deadline)
  | .wait => await b .wait

/-- The outcomes of a step: an entry is taken, the loop parks, a poll stays pending, or the
loop goes back to its head. -/
inductive Outcome (b : BrokenEndpoints) (now : ℕ) :
    NextBroken → BrokenEndpoints × (DelayedAddress ⊕ NextBroken) → Prop
  | taken {entry : DelayedAddress} : entry ∈ b.addresses → entry.nextTestTime ≤ DateTime.utc now →
      b.nextRound now = .found entry { b with addresses := b.addresses.erase entry } →
      Outcome b now .lock ({ b with addresses := b.addresses.erase entry },.inl entry)
  | parked {n : NextBroken} : n ≠ .lock → (n = .wait → b.addresses = []) →
      (∀ entry rest, b.nextRound now ≠ .found entry rest) → Outcome b now .lock (b,.inr n)
  | pending {n : NextBroken} {notifier : Notify} : n ≠ .lock → b.notifier.Silent →
      notifier.Silent → notifier.waiter = .waiting →
      Outcome b now n ({ b with notifier := notifier },.inr n)
  | awake {n : NextBroken} {notifier : Notify} : n ≠ .lock → notifier.waiter = .absent →
      Outcome b now n ({ b with notifier := notifier },.inr .lock)

theorem await_outcome {b : BrokenEndpoints} {now : ℕ} {n : NextBroken}
    {r : BrokenEndpoints × (DelayedAddress ⊕ NextBroken)} (hn : n ≠ .lock)
    (h : await b n = some r) : Outcome b now n r := by
  obtain ⟨⟨ready,notifier⟩,hpoll,rfl⟩ := Option.map_eq_some_iff.mp h
  rcases Notify.poll_eq_some hpoll with ⟨rfl,habsent⟩ | ⟨rfl,hbefore,hafter,hwaiting⟩
  · exact .awake hn habsent
  · exact .pending hn hbefore hafter hwaiting

theorem step_outcome {b : BrokenEndpoints} {now : ℕ} {timer : Bool} {n : NextBroken}
    {r : BrokenEndpoints × (DelayedAddress ⊕ NextBroken)} (h : n.step b now timer = some r) :
    Outcome b now n r := by
  cases n with
  | lock =>
    simp only [step] at h
    cases hround : b.nextRound now with
    | found entry rest =>
      simp only [hround,Option.some.injEq] at h
      subst h
      obtain ⟨⟨hmem,-⟩,hdue,rfl⟩ := BrokenEndpoints.nextRound_eq_found.mp hround
      exact .taken hmem hdue hround
    | sleep durr =>
      simp only [hround,Option.some.injEq] at h
      subst h
      exact .parked (by simp) (by simp) (by simp [hround])
    | wait =>
      simp only [hround,Option.some.injEq] at h
      subst h
      exact .parked (by simp) (fun _ => BrokenEndpoints.nextRound_eq_wait.mp hround) (by simp [hround])
  | sleep deadline =>
    simp only [step] at h
    split at h
    · simp only [Option.ite_none_right_eq_some,Option.some.injEq] at h
      obtain ⟨-,rfl⟩ := h
      exact .awake (by simp) (Notify.drop_waiter b.notifier)
    · exact await_outcome (by simp) h
  | wait => exact await_outcome (by simp) h

end NextBroken

/-- The doctor is in `next_broken_ip_address`, or tests the entry that it returned. -/
inductive Doctor
  | next (n : NextBroken)
  | testing (entry : DelayedAddress)
  deriving DecidableEq

/-- The heap, the doctor, and whether another task has changed the heap and is yet to notify.
On record is the heap as the doctor has last seen it. -/
structure DoctorLoop where
  broken : BrokenEndpoints
  doctor : Doctor
  owed : Bool
  inspected : List DelayedAddress
  deriving DecidableEq

namespace DoctorLoop

/-- A step of the loop, the end of a test, and the halves of the critical sections of
`add_address`, `re_add_address` and `replace_with`. -/
inductive Event
  | turn (now : ℕ) (timer : Bool)
  | tested
  | insert (entry : DelayedAddress)
  | replace (new : List DelayedAddress)
  | notify
  deriving DecidableEq

def init : DoctorLoop := ⟨BrokenEndpoints.empty,.next .lock,false,[]⟩

/-- Where the loop is after a step. -/
def follow : DelayedAddress ⊕ NextBroken → Doctor
  | .inl entry => .testing entry
  | .inr n => .next n

/-- The head of the loop needs the mutex, a parked loop does not. -/
def step (s : DoctorLoop) : Event → Option DoctorLoop
  | .turn now timer =>
    match s.doctor with
    | .next .lock =>
      if s.owed then none
      else (NextBroken.lock.step s.broken now timer).map (fun r =>
        { s with broken := r.1, doctor := follow r.2, inspected := s.broken.addresses })
    | .next n => (n.step s.broken now timer).map (fun r =>
        { s with broken := r.1, doctor := follow r.2 })
    | .testing _ => none
  | .tested =>
    match s.doctor with
    | .testing _ => some { s with doctor := .next .lock }
    | .next _ => none
  | .insert entry =>
    if s.owed then none
    else some { s with
      broken := { s.broken with addresses := putLast DelayedAddress.address entry s.broken.addresses }
      owed := true }
  | .replace new =>
    if s.owed then none
    else some { s with broken := { s.broken with addresses := new }, owed := !new.isEmpty }
  | .notify =>
    if s.owed then some { s with
      broken := { s.broken with notifier := s.broken.notifier.notifyOne }, owed := false }
    else none

/-- A turn is a step of the loop, which at its head takes a look at the heap. -/
theorem turn_eq_some {s s' : DoctorLoop} {now : ℕ} {timer : Bool}
    (h : s.step (.turn now timer) = some s') :
    ∃ n r, s.doctor = .next n ∧ n.step s.broken now timer = some r ∧
      s' = ⟨r.1,follow r.2,s.owed,if n = .lock then s.broken.addresses else s.inspected⟩ := by
  obtain ⟨broken,doctor,owed,inspected⟩ := s
  cases doctor with
  | testing entry => cases h
  | next n =>
    cases n with
    | lock =>
      simp only [step,Option.ite_none_left_eq_some,Option.map_eq_some_iff] at h
      obtain ⟨-,r,hr,rfl⟩ := h
      exact ⟨.lock,r,rfl,hr,rfl⟩
    | sleep deadline =>
      obtain ⟨r,hr,rfl⟩ := Option.map_eq_some_iff.mp h
      exact ⟨.sleep deadline,r,rfl,hr,rfl⟩
    | wait =>
      obtain ⟨r,hr,rfl⟩ := Option.map_eq_some_iff.mp h
      exact ⟨.wait,r,rfl,hr,rfl⟩

theorem turn_of_step {s : DoctorLoop} {n : NextBroken} {now : ℕ} {timer : Bool}
    {r : BrokenEndpoints × (DelayedAddress ⊕ NextBroken)} (hs : s.owed = false)
    (hd : s.doctor = .next n) (hr : n.step s.broken now timer = some r) :
    ∃ inspected, s.step (.turn now timer) = some ⟨r.1,follow r.2,s.owed,inspected⟩ := by
  obtain ⟨broken,doctor,owed,inspected⟩ := s
  cases hs
  cases hd
  cases n <;> simp [step,hr]

/-- The two halves of an insertion. -/
theorem run_insert (s : DoctorLoop) (hs : s.owed = false) (entry : DelayedAddress) :
    run step s [.insert entry,.notify] = some { s with broken := s.broken.insert entry } := by
  obtain ⟨broken,doctor,owed,inspected⟩ := s
  cases hs
  rfl

/-- A replacement by an empty heap notifies nobody. -/
theorem run_replace (s : DoctorLoop) (hs : s.owed = false) (new : List DelayedAddress) :
    ∃ es, run step s (.replace new::es) = some { s with broken := s.broken.replaceWith new } := by
  obtain ⟨broken,doctor,owed,inspected⟩ := s
  cases hs
  cases new with
  | nil => exact ⟨[],rfl⟩
  | cons d new => exact ⟨[.notify],rfl⟩

/-- No notification is stored, pending, or about to be given. -/
def Silent (s : DoctorLoop) : Prop := s.owed = false ∧ s.broken.notifier.Silent

/-- What a doctor that hears nothing may rely on while it is parked; only a parked doctor is
known to the notifier. -/
structure Current (s : DoctorLoop) : Prop where
  parked : ∀ n, s.doctor = .next n → n ≠ .lock → s.Silent →
    s.broken.addresses = [] ∨ s.broken.addresses = s.inspected
  wait : s.doctor = .next .wait → s.inspected = []
  busy : (∀ n, s.doctor = .next n → n = .lock) → s.broken.notifier.waiter = .absent

theorem current_init : Current init where
  parked n hn hne := by
    cases hn
    exact absurd rfl hne
  wait h := by cases h
  busy _ := rfl

/-- The doctor's own steps. -/
theorem Current.turn {s s' : DoctorLoop} {now : ℕ} {timer : Bool} (hs : Current s)
    (h : s.step (.turn now timer) = some s') : Current s' := by
  obtain ⟨n,r,hd,hr,rfl⟩ := turn_eq_some h
  have hbusy (hn : n = .lock) : s.broken.notifier.waiter = .absent :=
    hs.busy (fun m hm => (Doctor.next.inj (hm.symm.trans hd)).trans hn)
  cases NextBroken.step_outcome hr with
  | taken => exact ⟨by simp [follow],by simp [follow],fun _ => hbusy rfl⟩
  | parked hne hwait => exact ⟨fun _ _ _ _ => .inr rfl,by simpa [follow] using hwait,fun _ => hbusy rfl⟩
  | pending hne hbefore hafter hwaiting =>
    refine ⟨fun _ _ _ hsilent => ?_,fun hwait => ?_,fun hlock => absurd (hlock n rfl) hne⟩
    · simpa [hne] using hs.parked n hd hne ⟨hsilent.1,hbefore⟩
    · simpa [hne] using hs.wait (hd.trans hwait)
  | awake hne habsent => exact ⟨by simp_all [follow],by simp [follow],fun _ => habsent⟩

theorem Current.step {s s' : DoctorLoop} {e : Event} (hs : Current s) (h : s.step e = some s') :
    Current s' := by
  cases e with
  | turn now timer => exact hs.turn h
  | tested =>
    cases hd : s.doctor with
    | next n => simp [DoctorLoop.step,hd] at h
    | testing entry =>
      simp only [DoctorLoop.step,hd,Option.some.injEq] at h
      subst h
      have habsent := hs.busy (by simp [hd])
      exact ⟨by simp_all,by simp,fun _ => habsent⟩
  | insert entry =>
    simp only [DoctorLoop.step,Option.ite_none_left_eq_some,Option.some.injEq] at h
    obtain ⟨-,rfl⟩ := h
    refine ⟨?_,hs.wait,hs.busy⟩
    rintro n hn hne ⟨howed,-⟩
    cases howed
  | replace new =>
    simp only [DoctorLoop.step,Option.ite_none_left_eq_some,Option.some.injEq] at h
    obtain ⟨-,rfl⟩ := h
    refine ⟨?_,hs.wait,hs.busy⟩
    rintro n hn hne ⟨howed,-⟩
    have hempty : new = [] := by simpa using howed
    exact .inl hempty
  | notify =>
    simp only [DoctorLoop.step,Option.ite_none_right_eq_some,Option.some.injEq] at h
    obtain ⟨-,rfl⟩ := h
    refine ⟨?_,hs.wait,fun hbusy => Notify.notifyOne_waiter_of_absent (hs.busy hbusy)⟩
    rintro n hn hne ⟨-,hsilent⟩
    exact absurd hsilent (Notify.not_silent_notifyOne _)

/-- An entry that the doctor is given was in the heap and due at the reading of the clock in
the same step, and nothing else leaves the heap with it. -/
def TakesDue (s : DoctorLoop) (e : Event) : Prop :=
  ∀ s' entry, s.step e = some s' → s.doctor ≠ .testing entry → s'.doctor = .testing entry →
    ∃ now timer, e = .turn now timer ∧ entry ∈ s.broken.addresses ∧
      entry.nextTestTime ≤ DateTime.utc now ∧
      s'.broken.addresses = s.broken.addresses.erase entry

theorem takesDue (s : DoctorLoop) (e : Event) : TakesDue s e := by
  intro s' entry h hbefore hafter
  cases e with
  | turn now timer =>
    obtain ⟨n,r,hd,hr,rfl⟩ := turn_eq_some h
    cases NextBroken.step_outcome hr with
    | taken hmem hdue hround =>
      cases hafter
      exact ⟨now,timer,rfl,hmem,hdue,rfl⟩
    | parked => cases hafter
    | pending => cases hafter
    | awake => cases hafter
  | tested =>
    cases hd : s.doctor with
    | next n => simp [step,hd] at h
    | testing entry' =>
      simp only [step,hd,Option.some.injEq] at h
      subst h
      cases hafter
  | insert | replace =>
    simp only [step,Option.ite_none_left_eq_some,Option.some.injEq] at h
    obtain ⟨-,rfl⟩ := h
    exact absurd hafter hbefore
  | notify =>
    simp only [step,Option.ite_none_right_eq_some,Option.some.injEq] at h
    obtain ⟨-,rfl⟩ := h
    exact absurd hafter hbefore

theorem current_of_run {es : List Event} {s : DoctorLoop} (hr : run step init es = some s) :
    Current s :=
  run_invariant (P := fun _ _ => True) (fun _ _ _ hs _ h => hs.step h) current_init
    (along_of_forall (fun _ _ _ => trivial) init) hr

/-- No wake-up is lost and no test is early. A doctor that is parked and has not been notified
has seen the heap as it is, unless it was emptied since; without a timer the heap is empty. -/
theorem wakes_of_run {es : List Event} {s : DoctorLoop} (hr : run step init es = some s) :
    (∀ n, s.doctor = .next n → n ≠ .lock → s.Silent →
        s.broken.addresses = [] ∨ s.broken.addresses = s.inspected) ∧
      (s.doctor = .next .wait → s.Silent → s.broken.addresses = []) ∧
      Along step TakesDue init es := by
  have hs := current_of_run hr
  refine ⟨hs.parked,?_,along_of_forall (fun s e _ => takesDue s e) init⟩
  intro hwait hsilent
  rcases hs.parked .wait hwait (by simp) hsilent with hempty | hseen
  · exact hempty
  · exact hseen.trans (hs.wait hwait)

/-- The doctor parks, is woken for a new entry, and parks until the entry is due. -/
def asleep : List Event :=
  [.turn 0 false,.turn 0 false,.insert (DelayedAddress.ofAddress 0 (.v4 1)),.notify,
    .turn 0 false,.turn 0 false,.turn 0 false]

theorem wakes_asleep : ∃ s, run step init asleep = some s ∧
    s.doctor = .next (.sleep 1000000001) ∧ s.Silent ∧ s.broken.addresses.length = 1 ∧
      (s.broken.addresses = [] ∨ s.broken.addresses = s.inspected) := by
  have h : run step init asleep = some ⟨⟨[DelayedAddress.ofAddress 0 (.v4 1)],⟨false,.waiting⟩⟩,
      .next (.sleep 1000000001),false,[DelayedAddress.ofAddress 0 (.v4 1)]⟩ := by decide
  have hsilent : Notify.Silent ⟨false,.waiting⟩ := ⟨rfl,by decide⟩
  exact ⟨_,h,rfl,⟨rfl,hsilent⟩,rfl,(wakes_of_run h).1 _ rfl (by simp) ⟨rfl,hsilent⟩⟩

end DoctorLoop
end SodaPool
