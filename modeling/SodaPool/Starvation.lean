import SodaPool.Moves

/-!
# What the doctor does not get to

The heap has the latest test time on top. An entry that fails its test is put back with a
time after all those that were due before it, so it is on top again: while one server stays
down, the doctor has no time for the others.
-/

namespace SodaPool
namespace Starvation

open Containers Transition

variable {π Channel : Type}

/-- The entries of the other addresses. -/
def others (a : IpAddr) (l : List DelayedAddress) : List DelayedAddress :=
  l.filter (fun d => decide (d.address ≠ a))

theorem mem_others {a : IpAddr} {l : List DelayedAddress} {d : DelayedAddress} :
    d ∈ others a l ↔ d ∈ l ∧ d.address ≠ a := by simp [others]

theorem others_erase {d : DelayedAddress} (l : List DelayedAddress) :
    others d.address (l.erase d) = others d.address l := by
  rw [others,← List.erase_filter]
  exact List.erase_of_not_mem (by simp)

theorem others_putLast (d : DelayedAddress) (l : List DelayedAddress) :
    others d.address (putLast DelayedAddress.address d l) = others d.address l :=
  filter_ne_putLast DelayedAddress.address d l

/-- An entry that is put back is due a second later, but for the count. -/
theorem lt_nanos_reAdded (now : ℕ) (d : DelayedAddress) :
    (now : ℤ) < (Recheck.reAdded now d).nextTestTime.nanos := by
  have hdelay := BackoffTracker.abs_nextTestTime_sub now (d.failedTimes+1)
  have hpos : 0 < calculateBackoff (d.failedTimes+1) := Nat.pos_of_ne_zero (by simp [calculateBackoff])
  rw [abs_le] at hdelay
  have hback : (1 : ℤ) ≤ calculateBackoff (d.failedTimes+1) := by exact_mod_cast hpos
  change (now : ℤ) < (BackoffTracker.fromFailedTimes now (d.failedTimes+1)).nextTestTime.nanos
  omega

theorem nextTestTime_lt {d e : DelayedAddress} {now : ℤ} (hd : d.nextTestTime.nanos ≤ now)
    (he : now < e.nextTestTime.nanos) : d.nextTestTime < e.nextTestTime := by
  apply lt_of_not_ge
  intro hle
  have hnanos := (e.tracker.nextTestTime_le_iff d.tracker).mp hle
  exact absurd (hnanos.trans hd) (not_le_of_gt he)

/-- The doctor tests `a`, or is about to: all other entries are due, or due before that of `a`. -/
def Clings (a : IpAddr) (rest : List DelayedAddress) (clock : ℕ) (s : Lists Channel) :
    Task Channel → Prop
  | .recheck (.connect e) => e.address = a ∧ ∀ d ∈ rest, d.nextTestTime.nanos ≤ clock
  | .recheck (.insert e) => e.address = a ∧ ∀ d ∈ rest, d.nextTestTime < e.nextTestTime
  | .nextBroken _ => ∃ e ∈ s.broken.addresses, e.address = a ∧
      ∀ d ∈ rest, d.nextTestTime < e.nextTestTime
  | _ => False

theorem Clings.mono {a : IpAddr} {rest : List DelayedAddress} {clock clock' : ℕ}
    {s s' : Lists Channel} {t : Task Channel} (h : Clings a rest clock s t) (hle : clock ≤ clock')
    (hs : s'.broken.addresses = s.broken.addresses) : Clings a rest clock' s' t := by
  revert h
  fun_cases Clings a rest clock s t <;> simp only [Clings]
  · rintro ⟨ha,hdue⟩
    exact ⟨ha,fun d hd => (hdue d hd).trans (by exact_mod_cast hle)⟩
  · exact id
  · rw [hs]
    exact id
  · exact False.elim

/-- What the doctor takes from the heap is on top of it, and due. -/
theorem clings_of_taken {n : NextBroken} {b b' : BrokenEndpoints} {now : ℕ} {timer : Bool}
    {entry : DelayedAddress} (h : n.step b now timer = some (b',.inl entry)) :
    (entry ∈ b.addresses ∧ ∀ d ∈ b.addresses, d ≤ entry) ∧ entry.nextTestTime.nanos ≤ now ∧
      b'.addresses = b.addresses.erase entry := by
  have hout := NextBroken.step_outcome h
  generalize hr : (b',Sum.inl entry) = r at hout
  cases hout with
  | taken hmem hdue hround =>
    cases hr
    exact ⟨(BrokenEndpoints.nextRound_eq_found.mp hround).1,
      (entry.tracker.nextTestTime_le_utc_iff now).mp hdue,rfl⟩
  | parked | pending | awake => cases hr

/-- A step of the doctor whose attempts fail. -/
theorem clings_step {a : IpAddr} {clock : ℕ} {s s' : Lists Channel} {i : Input Channel}
    {t t' : Task Channel} (h : Task.TaskStep .doctor s i t s' t') (hle : clock ≤ i.now)
    (hfail : i.outcome = none) (ht : Clings a (others a s.broken.addresses) clock s t) :
    others a s'.broken.addresses = others a s.broken.addresses ∧
      Clings a (others a s.broken.addresses) i.now s' t' := by
  cases h with
  | connected ho => simp [hfail] at ho
  | @refused e =>
    obtain ⟨rfl,hdue⟩ := ht
    refine ⟨rfl,rfl,fun d hd => nextTestTime_lt (hdue d hd) ?_⟩
    exact lt_of_le_of_lt (by exact_mod_cast hle) (lt_nanos_reAdded i.now e)
  | @reAdd e =>
    obtain ⟨rfl,hlater⟩ := ht
    exact ⟨others_putLast e _,e,by simp [BrokenEndpoints.insert,mem_putLast],rfl,hlater⟩
  | @taken n b entry hstep =>
    obtain ⟨e,he,rfl,hlater⟩ := ht
    obtain ⟨⟨hmem,htop⟩,hdue,hb⟩ := clings_of_taken hstep
    have haddress : entry.address = e.address := by
      by_contra hne
      have hlt := hlater entry (mem_others.mpr ⟨hmem,hne⟩)
      exact absurd (DelayedAddress.nextTestTime_le (htop e he)) (not_le_of_gt hlt)
    refine ⟨?_,haddress,fun d hd => ?_⟩
    · rw [hb,← haddress]
      exact others_erase s.broken.addresses
    · have hd' := DelayedAddress.nextTestTime_le (htop d (mem_others.mp hd).1)
      exact ((d.tracker.nextTestTime_le_iff entry.tracker).mp hd').trans hdue
  | @waits n n' b hstep =>
    obtain ⟨entry,rest,-,-,heq⟩ | ⟨-,hb,-⟩ := Task.nextBroken_step hstep
    · cases heq
    · have hsame : b.addresses = s.broken.addresses := hb
      refine ⟨congrArg (others a) hsame,?_⟩
      change ∃ e ∈ b.addresses, _
      rw [hsame]
      exact ht
  | checkDns | checkDnsEnds | add | remove | insert => exact ht.elim

/-- The doctor of the pool fails to connect, and nobody else writes to the heap. -/
def Undisturbed (q : π) (w : World π Channel) (l : Label π Channel) : Prop :=
  l.pool = q → l.actor = .task .doctor ∧ l.input.outcome = none ∨
    l.actor ≠ .task .doctor ∧
      (w.write l).broken (w.pool q).lists.broken.addresses = (w.pool q).lists.broken.addresses

/-- The doctor of the pool clings to `a`, and the other entries of the heap are `rest`. -/
structure Stuck (q : π) (a : IpAddr) (rest : List DelayedAddress) (w : World π Channel) : Prop where
  kept : others a (w.pool q).lists.broken.addresses = rest
  doctor : Clings a rest w.clock (w.pool q).lists ((w.pool q).task .doctor)

variable [DecidableEq π]

theorem stuck_step {q : π} {a : IpAddr} {rest : List DelayedAddress} {w w' : World π Channel}
    {l : Label π Channel} (hs : Stuck q a rest w) (hl : Undisturbed q w l)
    (h : w.step l = some w') : Stuck q a rest w' := by
  obtain ⟨hle,hclock,hm,hother⟩ := World.step_move h
  obtain ⟨rfl,hdoctor⟩ := hs
  by_cases hq : l.pool = q
  · obtain ⟨q',actor,i⟩ := l
    obtain rfl : q' = q := hq
    dsimp only at hle hclock hm
    rcases hl rfl with ⟨hactor,hfail⟩ | ⟨hactor,hkeep⟩
    · obtain rfl : actor = .task .doctor := hactor
      have hown := hm.task_own (by simp)
      obtain ⟨hrest,hnext⟩ := clings_step (Task.taskStep_of_step hown) hle hfail hdoctor
      exact ⟨hrest,hclock ▸ hnext⟩
    · have hsame : (w'.pool q').lists.broken.addresses = (w.pool q').lists.broken.addresses :=
        hm.lists.2.trans hkeep
      have htask : (w'.pool q').task .doctor = (w.pool q').task .doctor :=
        hm.task_of_not_future (by simp) hactor
      exact ⟨congrArg (others a) hsame,htask ▸ hdoctor.mono (hclock ▸ hle) hsame⟩
  · have hsame := hother q (Ne.symm hq)
    exact ⟨by rw [hsame],by rw [hsame]; exact hdoctor.mono (hclock ▸ hle) rfl⟩

/-- The doctor takes an entry from the top of the heap, and it is due. -/
theorem taken_of_step {w w' : World π Channel} {q : π} {i : Input Channel} {entry : DelayedAddress}
    (htake : w.step ⟨q,.task .doctor,i⟩ = some w')
    (hentry : (w'.pool q).task .doctor = .recheck (.connect entry)) :
    (entry ∈ (w.pool q).lists.broken.addresses ∧
        ∀ d ∈ (w.pool q).lists.broken.addresses, d ≤ entry) ∧
      entry.nextTestTime.nanos ≤ i.now ∧
      (w'.pool q).lists.broken.addresses = (w.pool q).lists.broken.addresses.erase entry := by
  have hm : (w.pool q).Move (.task .doctor) i (w'.pool q) := (World.step_move htake).2.2.1
  have hown := Task.taskStep_of_step (hm.task_own (by simp))
  rw [hentry] at hown
  generalize (w.pool q).task .doctor = t at hown
  generalize (w'.pool q).lists = s' at hown ⊢
  cases hown with
  | taken hstep => exact clings_of_taken hstep

/-- All other entries stay where they are, and are due as well. -/
theorem stuck_of_taken {w w' : World π Channel} {q : π} {i : Input Channel} {entry : DelayedAddress}
    (htake : w.step ⟨q,.task .doctor,i⟩ = some w')
    (hentry : (w'.pool q).task .doctor = .recheck (.connect entry)) :
    Stuck q entry.address (others entry.address (w.pool q).lists.broken.addresses) w' := by
  have hclock : w'.clock = i.now := (World.step_move htake).2.1
  obtain ⟨⟨-,htop⟩,hentrydue,hb⟩ := taken_of_step htake hentry
  refine ⟨?_,?_⟩
  · rw [hb]
    exact others_erase _
  · rw [hentry]
    refine ⟨rfl,fun d hd => ?_⟩
    have hd' := DelayedAddress.nextTestTime_le (htop d (mem_others.mp hd).1)
    rw [hclock]
    exact ((d.tracker.nextTestTime_le_iff entry.tracker).mp hd').trans hentrydue

/-- Once the doctor has taken an entry, and as long as all its attempts fail and nobody else
writes to the heap, it takes the same address over and over. The entries of all other
addresses stay in the heap as they were, although every one of them is due. -/
theorem starves_of_run {w w' u : World π Channel} {q : π} {i : Input Channel}
    {entry : DelayedAddress} {ls : List (Label π Channel)}
    (htake : w.step ⟨q,.task .doctor,i⟩ = some w')
    (hentry : (w'.pool q).task .doctor = .recheck (.connect entry))
    (hls : Along World.step (Undisturbed q) w' ls) (hr : run World.step w' ls = some u) :
    (∀ e, (u.pool q).task .doctor = .recheck (.connect e) → e.address = entry.address) ∧
      others entry.address (u.pool q).lists.broken.addresses =
        others entry.address (w.pool q).lists.broken.addresses ∧
      ∀ d ∈ (u.pool q).lists.broken.addresses, d.address ≠ entry.address →
        d.nextTestTime ≤ DateTime.utc u.clock := by
  have hstart := stuck_of_taken htake hentry
  have hlater : w'.clock ≤ u.clock := World.clock_le_of_run hr
  have hstuck := run_invariant (fun _ _ _ hs hl h => stuck_step hs hl h) hstart hls hr
  refine ⟨fun e he => ?_,hstuck.kept,fun d hd hne => ?_⟩
  · have hdoctor := hstuck.doctor
    rw [he] at hdoctor
    exact hdoctor.1
  · have hd' : d ∈ others entry.address (u.pool q).lists.broken.addresses :=
      mem_others.mpr ⟨hd,hne⟩
    rw [hstuck.kept] at hd'
    have hdue := hstart.doctor
    rw [hentry] at hdue
    apply (d.tracker.nextTestTime_le_utc_iff u.clock).mpr
    exact (hdue.2 d hd').trans (by exact_mod_cast hlater)

/-- Two servers are reported broken, and the doctor takes the second. -/
def reported : List (Label Unit Unit) :=
  List.replicate 2 (.quiet () (.task (.report 0 (.v4 1))) 0) ++
    List.replicate 2 (.quiet () (.task (.report 1 (.v4 2))) 0)

/-- Its test fails, the doctor sleeps until it is due again, and takes it once more. -/
def clinging : List (Label Unit Unit) :=
  List.replicate 3 (.quiet () (.task .doctor) 2000000000) ++
    [⟨(),.task .doctor,{ now := 5000000000, timer := true }⟩,
      .quiet () (.task .doctor) 5000000000]

theorem starves_clinging : ∃ w w' u : World Unit Unit, run World.step World.init reported = some w ∧
    w.step (.quiet () (.task .doctor) 2000000000) = some w' ∧ run World.step w' clinging = some u ∧
      (u.pool ()).lists.brokenIps = [.v4 1] ∧
        (∃ e, (u.pool ()).task .doctor = .recheck (.connect e) ∧ e.address = .v4 2) ∧
          ∀ d ∈ (u.pool ()).lists.broken.addresses, d.address ≠ .v4 2 →
            d.nextTestTime ≤ DateTime.utc u.clock := by
  have hrun : ∃ w w' u : World Unit Unit, ∃ entry e : DelayedAddress,
      run World.step World.init reported = some w ∧
        w.step (.quiet () (.task .doctor) 2000000000) = some w' ∧
          (w'.pool ()).task .doctor = .recheck (.connect entry) ∧ entry.address = .v4 2 ∧
            run World.step w' clinging = some u ∧ (u.pool ()).lists.brokenIps = [.v4 1] ∧
              (u.pool ()).task .doctor = .recheck (.connect e) :=
    ⟨_,_,_,_,_,rfl,rfl,rfl,rfl,rfl,rfl,rfl⟩
  obtain ⟨w,w',u,entry,e,hw,hw',hentry,haddress,hu,hips,he⟩ := hrun
  have hls : Along World.step (Undisturbed ()) w' clinging := by
    apply along_of_forall
    intro s l hl _
    left
    simp only [clinging,List.mem_append,List.mem_replicate,List.mem_cons,List.not_mem_nil] at hl
    rcases hl with ⟨-,rfl⟩ | rfl | rfl | h
    · exact ⟨rfl,rfl⟩
    · exact ⟨rfl,rfl⟩
    · exact ⟨rfl,rfl⟩
    · exact h.elim
  obtain ⟨htests,-,hdue⟩ := starves_of_run hw' hentry hls hu
  rw [haddress] at htests hdue
  exact ⟨w,w',u,hw,hw',hu,hips,⟨e,he,htests e he⟩,hdue⟩

end Starvation
end SodaPool
