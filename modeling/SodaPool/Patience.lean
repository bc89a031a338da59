import SodaPool.Schedule
import SodaPool.Starvation

/-!
# What the doctor waits for

The doctor tests an address only after the same pool has found the server of that address
broken, and not before the delay for its failures has passed.
-/

namespace SodaPool
namespace Patience

open Transition Schedule

variable {π Channel : Type}

/-- A time that is made in a step is made from the clock and from the count it carries. -/
theorem tracker_of_made {e : DelayedAddress} {now : ℕ}
    (h : e = DelayedAddress.ofAddress now e.address ∨ ∃ d, e = Recheck.reAdded now d) :
    e.tracker = BackoffTracker.fromFailedTimes now e.failedTimes := by
  obtain ⟨n,hn⟩ : ∃ n, e.tracker = BackoffTracker.fromFailedTimes now n := by
    rcases h with hfirst | ⟨d,rfl⟩
    · exact ⟨1,congrArg DelayedAddress.tracker hfirst⟩
    · exact ⟨d.failedTimes+1,rfl⟩
  rw [DelayedAddress.failedTimes,hn,BackoffTracker.failedTimes_fromFailedTimes]

variable [DecidableEq π]

/-- A step of the run has found the server of the entry broken, and the entry has been made from
the clock of that step. -/
def FoundBroken (q : π) (ls : List (Label π Channel)) (e : DelayedAddress) : Prop :=
  ∃ pre l post s, ls = pre ++ l::post ∧ run World.step World.init pre = some s ∧
    failure q e.address s l = true ∧
      e.tracker = BackoffTracker.fromFailedTimes l.input.now e.failedTimes

theorem found_step {q : π} {R : DelayedAddress → Prop} {w w' : World π Channel}
    {l : Label π Channel} (hw : ∀ e, Known (w.pool q) e → R e)
    (hR : ∀ e, failure q e.address w l = true →
      e.tracker = BackoffTracker.fromFailedTimes l.input.now e.failedTimes → R e)
    (h : w.step l = some w') : ∀ e, Known (w'.pool q) e → R e := by
  intro e he
  obtain ⟨-,-,hm,hother⟩ := World.step_move h
  by_cases hq : l.pool = q
  · obtain ⟨q',actor,i⟩ := l
    obtain rfl : q' = q := hq
    rcases known_of_move hm he with hold | ⟨id,hactor,hfails,hnew⟩
    · exact hw e hold
    · obtain rfl : actor = .task id := hactor
      exact hR e (by simp [Schedule.failure,hfails])
        (tracker_of_made (hnew.imp_right (fun ⟨d,_,hd⟩ => ⟨d,hd⟩)))
  · rw [hother q (Ne.symm hq)] at he
    exact hw e he

theorem found_of_run {q : π} {ls : List (Label π Channel)} {u : World π Channel}
    (hr : run World.step World.init ls = some u) :
    ∀ e, Known (u.pool q) e → FoundBroken q ls e := by
  have halong : Along World.step (fun s l => ∀ e, failure q e.address s l = true →
      e.tracker = BackoffTracker.fromFailedTimes l.input.now e.failedTimes → FoundBroken q ls e)
      World.init ls :=
    along_of_split (fun pre l post s hsplit hpre e hfails htracker =>
      ⟨pre,l,post,s,hsplit,hpre,hfails,htracker⟩)
  exact run_invariant (I := fun w : World π Channel => ∀ e, Known (w.pool q) e → FoundBroken q ls e)
    (fun _ _ _ hw hR h => found_step hw hR h) (fun e he => absurd he (not_known_init q e)) halong hr

/-- No test of the doctor comes without a failure, or too early after it: when the doctor takes
an entry, an earlier step of the run, an attempt at the address or a report of it, has found its
server broken, and the delay for the failures of the entry has passed since then, but for the
count. -/
theorem patient_of_run {ls : List (Label π Channel)} {w w' : World π Channel} {q : π}
    {i : Input Channel} {entry : DelayedAddress} (hr : run World.step World.init ls = some w)
    (htake : w.step ⟨q,.task .doctor,i⟩ = some w')
    (hentry : (w'.pool q).task .doctor = .recheck (.connect entry)) :
    ∃ pre l post s, ls = pre ++ l::post ∧ run World.step World.init pre = some s ∧
      failure q entry.address s l = true ∧
        l.input.now + calculateBackoff entry.failedTimes*1000000000 ≤ i.now + 255 := by
  obtain ⟨⟨hmem,-⟩,hdue,-⟩ := Starvation.taken_of_step htake hentry
  obtain ⟨pre,l,post,s,hsplit,hpre,hfails,htracker⟩ := found_of_run hr entry (.inl hmem)
  have hdelay := BackoffTracker.abs_nextTestTime_sub l.input.now entry.failedTimes
  rw [← htracker,abs_le] at hdelay
  refine ⟨pre,l,post,s,hsplit,hpre,hfails,?_⟩
  have htime : entry.tracker.nextTestTime.nanos ≤ i.now := hdue
  omega

theorem patient_reported : ∃ w w' : World Unit Unit,
    run World.step World.init Starvation.reported = some w ∧
      w.step (.quiet () (.task .doctor) 2000000000) = some w' ∧
      ∃ pre l post s, Starvation.reported = pre ++ l::post ∧
        run World.step World.init pre = some s ∧ failure () (.v4 2) s l = true ∧
          l.input.now + calculateBackoff 1*1000000000 ≤ 2000000000 + 255 := by
  obtain ⟨w,w',entry,hw,hw',hentry,haddress,hcount⟩ : ∃ w w' : World Unit Unit,
      ∃ entry : DelayedAddress, run World.step World.init Starvation.reported = some w ∧
        w.step (.quiet () (.task .doctor) 2000000000) = some w' ∧
          (w'.pool ()).task .doctor = .recheck (.connect entry) ∧ entry.address = .v4 2 ∧
            entry.failedTimes = 1 := ⟨_,_,_,rfl,rfl,rfl,rfl,by decide⟩
  have hpatient := patient_of_run hw hw' hentry
  rw [haddress,hcount] at hpatient
  exact ⟨w,w',hw,hw',hpatient⟩

end Patience
end SodaPool
