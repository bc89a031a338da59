import SodaPool.Uniqueness

/-!
# What a report of a broken endpoint leaves behind

`report_broken` removes one entry from the ready list and then puts the address into the
heap with one failure. The entries of other addresses are kept; whether the address is
out of service depends on how often the ready list held it.
-/

namespace SodaPool
namespace ReportBroken

open Containers Transition

variable {π Channel : Type}

/-- The address is ready nowhere, so that `get_any` never answers it, and has one entry in
the heap, with one failure; the entries of all others are as they were. -/
structure OutOfService (s s' : Lists Channel) (ip : IpAddr) : Prop where
  notReady : ip ∉ s'.readyIps
  notAnswered : ∀ index channel,
    (ReadyChannels.getAny ⟨s'.ready.channels,index⟩).1 ≠ some (ip,channel)
  oneEntry : ∃ d, s'.broken.addresses.filter (fun d => decide (d.address = ip)) = [d] ∧
    d.failedTimes = 1
  readyOthers : (s'.ready.channels.filter (fun e => decide (e.1 ≠ ip))).Perm
    (s.ready.channels.filter (fun e => decide (e.1 ≠ ip)))
  brokenOthers : s'.broken.addresses.filter (fun d => decide (d.address ≠ ip)) =
    s.broken.addresses.filter (fun d => decide (d.address ≠ ip))

/-- The lists after both steps of a report. -/
def reported (s : Lists Channel) (now : ℕ) (ip : IpAddr) : Lists Channel :=
  ⟨s.ready.remove ip,s.broken.addAddress now ip⟩

theorem getAny_ne_of_not_mem {r : ReadyChannels Channel} {ip : IpAddr} (h : ip ∉ r.ips)
    (channel : Channel) : r.getAny.1 ≠ some (ip,channel) := by
  intro hany
  exact h (List.mem_map.mpr ⟨(ip,channel),ReadyChannels.getAny_mem hany,rfl⟩)

theorem outOfService_reported_iff (s : Lists Channel) (now : ℕ) (ip : IpAddr) :
    OutOfService s (reported s now ip) ip ↔ s.readyIps.count ip ≤ 1 := by
  have hgone : ip ∉ (reported s now ip).readyIps ↔ s.readyIps.count ip ≤ 1 :=
    not_mem_keys_removeFirst_iff Prod.fst ip s.ready.channels
  constructor
  · intro h
    exact hgone.mp h.notReady
  · intro hcount
    have hnot := hgone.mpr hcount
    refine ⟨hnot,?_,?_,?_,?_⟩
    · intro index
      exact getAny_ne_of_not_mem hnot
    · have hentry := filter_eq_putLast DelayedAddress.address
        (DelayedAddress.ofAddress now ip) s.broken.addresses
      exact ⟨_,hentry,BackoffTracker.failedTimes_fromFailedTimes now 1⟩
    · exact filter_removeFirst_perm Prod.fst ip s.ready.channels
    · exact filter_ne_putLast DelayedAddress.address (DelayedAddress.ofAddress now ip)
        s.broken.addresses

variable [DecidableEq π]

/-- The two steps of a report, with nothing in between. -/
theorem lists_of_run {w w' : World π Channel} {q : π} {call : ℕ} {ip : IpAddr}
    {i j : Input Channel} (hstart : (w.pool q).task (.report call ip) = .report (.remove ip))
    (h : run World.step w
      [⟨q,.task (.report call ip),i⟩,⟨q,.task (.report call ip),j⟩] = some w') :
    (w'.pool q).lists = reported (w.pool q).lists i.now ip := by
  obtain ⟨v,hv,hrest⟩ := run_cons_eq_some.mp h
  obtain ⟨u,hu,hend⟩ := run_cons_eq_some.mp hrest
  cases hend
  have hmove : (w.pool q).Move (.task (.report call ip)) i (v.pool q) := (World.step_move hv).2.2.1
  have hmove' : (v.pool q).Move (.task (.report call ip)) j (w'.pool q) := (World.step_move hu).2.2.1
  have hfirst := hmove.task_self (by simp [hstart])
  simp only [hstart,Task.step,Report.step,Option.map_some,Option.getD_some,Option.some.injEq,
    Prod.mk.injEq] at hfirst
  obtain ⟨hlists,htask⟩ := hfirst
  have hsecond := hmove'.task_self (by simp [← htask])
  simp only [← htask,Task.step,Report.step,Option.some.injEq,Prod.mk.injEq] at hsecond
  rw [← hsecond.1,← hlists]
  rfl

/-- A report takes an address out of service exactly when the ready list held it at most
once. -/
theorem outOfService_iff {w w' : World π Channel} {q : π} {call : ℕ} {ip : IpAddr}
    {i j : Input Channel} (hstart : (w.pool q).task (.report call ip) = .report (.remove ip))
    (h : run World.step w
      [⟨q,.task (.report call ip),i⟩,⟨q,.task (.report call ip),j⟩] = some w') :
    OutOfService (w.pool q).lists (w'.pool q).lists ip ↔ (w.pool q).lists.readyIps.count ip ≤ 1 := by
  rw [lists_of_run hstart h]
  exact outOfService_reported_iff _ _ _

/-- The two steps of a report of the address 0.0.0.1. -/
def report : List (Label Unit Unit) :=
  [.quiet () (.task (.report 0 (.v4 1))) 2000000000,.quiet () (.task (.report 0 (.v4 1))) 2000000000]

/-- Once the race of `check_dns` and the doctor is over, the address is ready twice. -/
def raced : List (Label Unit Unit) := Uniqueness.race ++ [.quiet () (.task .dns) 2000000000]

theorem raced_quiescent {w : World Unit Unit} (h : run World.step World.init raced = some w) :
    w.Every Pool.Quiescent := by
  cases h
  exact fun _ => ⟨fun id => by cases id <;> trivial,fun _ => trivial⟩

/-- A report of an address that is ready twice leaves one of its entries ready. -/
theorem outOfService_fails : ∃ (ls : List (Label Unit Unit)) (w w' : World Unit Unit),
    (∀ l ∈ ls, Uniqueness.DistinctAnswer l) ∧ run World.step World.init ls = some w ∧
      w.Every Pool.Quiescent ∧ run World.step w report = some w' ∧
      ¬ OutOfService (w.pool ()).lists (w'.pool ()).lists (.v4 1) := by
  have h : (run World.step World.init (raced ++ report)).map
      (fun u => (u.pool ()).lists.readyIps) = some [.v4 1] := by decide
  obtain ⟨w',hrun,hips⟩ := Option.map_eq_some_iff.mp h
  obtain ⟨w,hw,hw'⟩ := run_append.mp hrun
  refine ⟨raced,w,w',by decide,hw,raced_quiescent hw,hw',fun hout => ?_⟩
  have hnot := hout.notReady
  rw [hips] at hnot
  exact hnot (List.mem_singleton_self _)

/-- Three servers, the last of which refuses. -/
def mixed : List (Label Unit Unit) :=
  [.answered () .dns 0 [.v4 1,.v4 2,.v4 3],.quiet () (.task .dns) 0,.quiet () (.task .dns) 0,
    .connected () .dns 0 (),.quiet () (.task .dns) 0,.quiet () (.task .dns) 0,
    .connected () .dns 0 ()] ++ List.replicate 5 (.quiet () (.task .dns) 0)

/-- The first is out of service after its report, the second is ready still, and the third is
broken still. -/
theorem outOfService_mixed : ∃ w w' : World Unit Unit, run World.step World.init mixed = some w ∧
    run World.step w report = some w' ∧ (w.pool ()).lists.readyIps = [.v4 1,.v4 2] ∧
      (w.pool ()).lists.brokenIps = [.v4 3] ∧ (w'.pool ()).lists.readyIps = [.v4 2] ∧
      (w'.pool ()).lists.brokenIps = [.v4 3,.v4 1] ∧
      OutOfService (w.pool ()).lists (w'.pool ()).lists (.v4 1) := by
  have h : (run World.step World.init mixed).map (fun w => ((w.pool ()).lists.readyIps,
      (w.pool ()).lists.brokenIps)) = some ([.v4 1,.v4 2],[.v4 3]) := by decide
  have h' : (run World.step World.init (mixed ++ report)).map (fun w => ((w.pool ()).lists.readyIps,
      (w.pool ()).lists.brokenIps)) = some ([.v4 2],[.v4 3,.v4 1]) := by decide
  obtain ⟨w',hrun,hlists'⟩ := Option.map_eq_some_iff.mp h'
  obtain ⟨w,hw,hw'⟩ := run_append.mp hrun
  rw [hw,Option.map_some,Option.some.injEq] at h
  obtain ⟨hready,hbroken⟩ := Prod.mk.inj h
  obtain ⟨hready',hbroken'⟩ := Prod.mk.inj hlists'
  have hstart : (w.pool ()).task (.report 0 (.v4 1)) = .report (.remove (.v4 1)) := by
    cases hw
    rfl
  refine ⟨w,w',hw,hw',hready,hbroken,hready',hbroken',(outOfService_iff hstart hw').mpr ?_⟩
  rw [hready]
  decide

end ReportBroken
end SodaPool
