import SodaPool.Provenance

/-!
# When broken addresses are tested again

Entries are copied from the heap to a task and back, at any time and by any number of
tasks. Each of them was made at some reading of the clock, with a count of failures that
the address has really had, so no test is put off for longer than the count allows.
-/

namespace SodaPool
namespace Schedule

open Containers Transition Provenance

variable {π Channel : Type}

/-- The entries in the hands of a task. -/
def carried : Task Channel → List DelayedAddress
  | .checkDns (.find _ l) | .checkDns (.getAddress _ l) | .checkDns (.connect _ l) => l.broken
  | .checkDns (.replaceReady l) | .checkDns (.replaceBroken l) => l.broken
  | .recheck (.connect entry) | .recheck (.insert entry) => [entry]
  | .report (.insert entry) => [entry]
  | _ => []

/-- The next step of the task finds the server broken: an attempt that fails, or a report. -/
def fails (a : IpAddr) (t : Task Channel) (i : Input Channel) : Bool :=
  match t with
  | .report (.remove ip) => decide (ip = a)
  | t => decide (dials t = some a) && i.outcome.isNone

/-- A step of the pool that finds the server broken. -/
def failure [DecidableEq π] (q : π) (a : IpAddr) (w : World π Channel) (l : Label π Channel) : Bool :=
  match l.actor with
  | .task id => decide (l.pool = q) && fails a ((w.pool q).task id) l.input
  | _ => false

@[simp] theorem carried_loop (l : Locals Channel) : carried (.checkDns (CheckDns.loop l)) = l.broken := by
  obtain ⟨addresses,ready,broken⟩ := l
  cases addresses <;> rfl

@[simp] theorem carried_resume (id : TaskId) : carried (Task.resume id : Task Channel) = [] := by
  cases id <;> rfl

/-- The entry was made at a reading of the clock, when the address had failed so often. -/
def Made (clock failures : ℕ) (e : DelayedAddress) : Prop :=
  ∃ t n, t ≤ clock ∧ e.tracker = BackoffTracker.fromFailedTimes t n ∧ n.toNat ≤ failures

theorem Made.mono {clock clock' failures failures' : ℕ} {e : DelayedAddress}
    (h : Made clock failures e) (hc : clock ≤ clock') (hf : failures ≤ failures') :
    Made clock' failures' e := by
  obtain ⟨t,n,ht,he,hn⟩ := h
  exact ⟨t,n,ht.trans hc,he,hn.trans hf⟩

theorem made_ofAddress (now : ℕ) (a : IpAddr) {failures : ℕ} (h : 1 ≤ failures) :
    Made now failures (DelayedAddress.ofAddress now a) := ⟨now,1,le_refl _,rfl,h⟩

/-- One failure more, or none at all where the count wraps around. -/
theorem made_reAdded {clock now failures : ℕ} {d : DelayedAddress} (h : Made clock failures d) :
    Made now (failures+1) (Recheck.reAdded now d) := by
  obtain ⟨t,n,-,hd,hn⟩ := h
  refine ⟨now,n+1,le_refl _,?_,?_⟩
  · simp only [Recheck.reAdded,DelayedAddress.failedTimes,hd,BackoffTracker.failedTimes_fromFailedTimes]
  · rw [UInt8.toNat_add]
    have h1 : (1 : UInt8).toNat = 1 := rfl
    omega

/-- An entry new to the hands of a task is from the heap, or it was made in this step. -/
theorem carried_step {id : TaskId} {s : Lists Channel} {i : Input Channel} {t : Task Channel}
    {r : Lists Channel × Task Channel} (h : t.step id s i = some r) {e : DelayedAddress}
    (he : e ∈ carried r.2) :
    e ∈ carried t ∨ e ∈ s.broken.addresses ∨ fails e.address t i = true ∧
      (e = DelayedAddress.ofAddress i.now e.address ∨
        ∃ d ∈ carried t, e = Recheck.reAdded i.now d) := by
  have hlocals {l : Locals Channel} {d : DelayedAddress} (he : e ∈ l.broken ++ [d]) :
      e ∈ l.broken ∨ e = d := by simpa using he
  have hresume (he : e ∈ carried (Task.resume id : Task Channel)) : False := by
    rw [carried_resume] at he
    cases he
  obtain ⟨s',t'⟩ := r
  cases Task.taskStep_of_step h with
  | checkDns hgoes =>
    cases hgoes with
    | resolved =>
      rw [carried_loop] at he
      cases he
    | ready | connected =>
      rw [carried_loop] at he
      exact .inl he
    | broken hg =>
      rw [carried_loop] at he
      rcases hlocals he with hl | rfl
      · exact .inl hl
      · exact .inr (.inl (BrokenEndpoints.getAddress_mem hg).1)
    | refused ho =>
      rw [carried_loop] at he
      rcases hlocals he with hl | rfl
      · exact .inl hl
      · exact .inr (.inr ⟨by simp [fails,dials,DelayedAddress.ofAddress,ho],.inl rfl⟩)
    | notReady | unknown | replaceReady => exact .inl he
  | @refused entry ho =>
    simp only [carried,List.mem_singleton] at he
    subst he
    refine .inr (.inr ⟨by simp [fails,dials,Recheck.reAdded,ho],.inr ⟨entry,?_,rfl⟩⟩)
    exact List.mem_singleton_self entry
  | remove =>
    simp only [carried,List.mem_singleton] at he
    subst he
    exact .inr (.inr ⟨by simp [fails,DelayedAddress.ofAddress],.inl rfl⟩)
  | @taken n b entry hstep =>
    simp only [carried,List.mem_singleton] at he
    subst he
    obtain ⟨e',rest,-,hround,heq⟩ | ⟨⟨n',hn'⟩,-⟩ := Task.nextBroken_step hstep
    · cases heq
      exact .inr (.inl (BrokenEndpoints.nextRound_eq_found.mp hround).1.1)
    · cases hn'
  | checkDnsEnds | add | reAdd | insert => exact (hresume he).elim
  | connected | waits => cases he

theorem write_eq_insert {s : Lists Channel} {i : Input Channel} {t : Task Channel}
    {entry : DelayedAddress} (h : t.write s i = .insert entry) : entry ∈ carried t := by
  revert h
  fun_cases Task.write s i t <;> simp [carried,eq_comm]

/-- An entry of the pool: in the heap, or in the hands of a task. -/
def Known (p : Pool Channel) (e : DelayedAddress) : Prop :=
  e ∈ p.lists.broken.addresses ∨ ∃ id, e ∈ carried (p.task id)

/-- An entry new to the pool was made in this step. -/
theorem known_of_move {p p' : Pool Channel} {actor : Actor} {i : Input Channel}
    (hm : p.Move actor i p') {e : DelayedAddress} (he : Known p' e) :
    Known p e ∨ ∃ id, actor = .task id ∧ fails e.address (p.task id) i = true ∧
      (e = DelayedAddress.ofAddress i.now e.address ∨
        ∃ d, Known p d ∧ e = Recheck.reAdded i.now d) := by
  rcases he with hheap | ⟨id,hid⟩
  · left
    rw [hm.lists.2] at hheap
    cases hw : p.write actor i with
    | replaceBroken new =>
      obtain ⟨id,l,-,hl,rfl⟩ := Pool.write_eq_replaceBroken hw
      rw [hw] at hheap
      exact .inr ⟨id,by rw [hl]; exact hheap⟩
    | insert entry =>
      rw [hw] at hheap
      rcases (mem_putLast DelayedAddress.address).mp hheap with ⟨hold,-⟩ | rfl
      · exact .inl hold
      · cases actor with
        | task id => exact .inr ⟨id,write_eq_insert hw⟩
        | get call => cases hw
        | cancel call => cases hw
    | pop entry =>
      rw [hw] at hheap
      exact .inl (List.mem_of_mem_erase hheap)
    | nothing | replaceReady | add | remove =>
      rw [hw] at hheap
      exact .inl hheap
  · rcases hm.task_cases id with hsame | hfresh | ⟨lists,ha,hown⟩
    · exact .inl (.inr ⟨id,hsame ▸ hid⟩)
    · left
      revert hfresh hid
      generalize p'.task id = t
      fun_cases Task.Fresh p.lists t <;> simp_all [carried,Known]
    · rcases carried_step hown hid with hold | hheap | ⟨hfails,hfirst | ⟨d,hd,hagain⟩⟩
      · exact .inl (.inr ⟨id,hold⟩)
      · exact .inl (.inl hheap)
      · exact .inr ⟨id,ha,hfails,.inl hfirst⟩
      · exact .inr ⟨id,ha,hfails,.inr ⟨d,.inr ⟨id,hd⟩,hagain⟩⟩

/-- The longest time for which a test is put off: 64 seconds and the count. -/
def maxDelay : ℕ := 64000000255

theorem Made.due {clock failures : ℕ} {e : DelayedAddress} (h : Made clock failures e) :
    e.nextTestTime.nanos ≤ clock + maxDelay := by
  obtain ⟨t,n,ht,he,-⟩ := h
  have hdelay := BackoffTracker.abs_nextTestTime_sub t n
  have hback : (calculateBackoff n : ℤ) ≤ 64 := by exact_mod_cast calculateBackoff_le n
  rw [abs_le,← he] at hdelay
  simp only [maxDelay]
  change e.tracker.nextTestTime.nanos ≤ _
  push_cast
  omega

/-- A loop that sleeps has gone to sleep for an entry of the heap. -/
theorem sleep_of_step {n : NextBroken} {b b' : BrokenEndpoints} {now deadline : ℕ} {timer : Bool}
    (h : n.step b now timer = some (b',.inr (.sleep deadline))) :
    n = .sleep deadline ∨ ∃ d ∈ b.addresses, (deadline : ℤ) = d.nextTestTime.nanos := by
  have hawait {m : NextBroken} (h : NextBroken.await b m = some (b',.inr (.sleep deadline))) :
      m = .sleep deadline := by
    obtain ⟨r,-,hr⟩ := Option.map_eq_some_iff.mp h
    cases hready : r.1 <;> simp_all
  cases n with
  | lock =>
    simp only [NextBroken.step] at h
    cases hround : b.nextRound now with
    | sleep durr =>
      simp only [hround,Option.some.injEq,Prod.mk.injEq,Sum.inr.injEq,NextBroken.sleep.injEq] at h
      obtain ⟨d,hd,-,-,hdurr⟩ := BrokenEndpoints.nextRound_eq_sleep hround
      exact .inr ⟨d,hd,by rw [← h.2,← hdurr]; exact Int.natCast_add now durr⟩
    | found entry rest => simp [hround] at h
    | wait => simp [hround] at h
  | sleep deadline' =>
    simp only [NextBroken.step] at h
    split at h
    · split at h <;> simp at h
    · exact .inl (hawait h)
  | wait => exact .inl (hawait h)

variable [DecidableEq π]

theorem made_step {q : π} {a : IpAddr} {w w' : World π Channel} {l : Label π Channel} {n : ℕ}
    (hw : ∀ e, Known (w.pool q) e → e.address = a → Made w.clock n e) (h : w.step l = some w')
    {e : DelayedAddress} (he : Known (w'.pool q) e) (ha : e.address = a) :
    Made w'.clock (n + (failure q a w l).toNat) e := by
  obtain ⟨hle,hclock,hm,hother⟩ := World.step_move h
  have hkeep (he : Known (w.pool q) e) : Made w'.clock (n + (failure q a w l).toNat) e :=
    (hw e he ha).mono (hclock ▸ hle) (Nat.le_add_right n _)
  by_cases hq : l.pool = q
  · obtain ⟨q',actor,i⟩ := l
    obtain rfl : q' = q := hq
    rcases known_of_move hm he with hold | ⟨id,hactor,hfails,hnew⟩
    · exact hkeep hold
    · have hcount : failure q' a w ⟨q',actor,i⟩ = true := by
        obtain rfl : actor = .task id := hactor
        simp [failure,← ha,hfails]
      rw [hcount,hclock]
      rcases hnew with hfirst | ⟨d,hd,rfl⟩
      · rw [hfirst]
        exact made_ofAddress i.now e.address (by simp)
      · exact made_reAdded (hw d hd ha)
  · rw [hother q (Ne.symm hq)] at he
    exact hkeep he

/-- Every entry of the pool is due soon, and so is the doctor if it sleeps. -/
structure Punctual (q : π) (w : World π Channel) : Prop where
  entries : ∀ e, Known (w.pool q) e → e.nextTestTime.nanos ≤ w.clock + maxDelay
  sleeps : ∀ id deadline, (w.pool q).task id = .nextBroken (.sleep deadline) →
    deadline ≤ w.clock + maxDelay

omit [DecidableEq π] in
theorem not_known_init (q : π) (e : DelayedAddress) :
    ¬ Known ((World.init : World π Channel).pool q) e := by
  rintro (hheap | ⟨id,hid⟩)
  · cases hheap
  · cases id <;> cases hid

omit [DecidableEq π] in
theorem punctual_init (q : π) : Punctual q (World.init : World π Channel) where
  entries e he := absurd he (not_known_init q e)
  sleeps id deadline hid := by cases id <;> cases hid

omit [DecidableEq π] in
/-- A task that has gone to sleep in a step has seen an entry of the heap. -/
theorem sleep_of_move {p p' : Pool Channel} {actor : Actor} {i : Input Channel}
    (hm : p.Move actor i p') {id : TaskId} {deadline : ℕ}
    (hid : p'.task id = .nextBroken (.sleep deadline)) :
    p.task id = .nextBroken (.sleep deadline) ∨
      ∃ d ∈ p.lists.broken.addresses, (deadline : ℤ) = d.nextTestTime.nanos := by
  rcases hm.task_cases id with hsame | hfresh | ⟨lists,-,hown⟩
  · exact .inl (hsame ▸ hid)
  · rw [hid] at hfresh
    exact hfresh.elim
  · rw [hid] at hown
    have hstep := Task.taskStep_of_step hown
    generalize p.task id = t at hstep
    generalize ht' : Task.nextBroken (.sleep deadline) = t' at hstep
    cases hstep with
    | waits hwaits =>
      cases ht'
      exact (sleep_of_step hwaits).imp_left (congrArg Task.nextBroken)
    | checkDnsEnds | add | reAdd | insert => cases id <;> simp at ht'
    | checkDns | connected | refused | remove | taken => cases ht'

/-- An entry is due within the longest delay from when it was made. -/
theorem due_of_move {p p' : Pool Channel} {actor : Actor} {i : Input Channel}
    (hm : p.Move actor i p') {e : DelayedAddress} (he : Known p' e) :
    Known p e ∨ e.nextTestTime.nanos ≤ i.now + maxDelay := by
  rcases known_of_move hm he with hold | ⟨id,-,-,hnew⟩
  · exact .inl hold
  · right
    have hmade : Made i.now 255 e := by
      rcases hnew with hfirst | ⟨d,-,rfl⟩
      · rw [hfirst]
        exact made_ofAddress i.now e.address (by decide)
      · exact ⟨i.now,d.failedTimes+1,le_refl _,rfl,Nat.le_of_lt_succ (UInt8.toNat_lt _)⟩
    exact hmade.due

theorem punctual_step {q : π} {w w' : World π Channel} {l : Label π Channel} (hw : Punctual q w)
    (h : w.step l = some w') : Punctual q w' := by
  obtain ⟨hle,hclock,hm,hother⟩ := World.step_move h
  have hlater : (w.clock : ℤ) ≤ w'.clock := by exact_mod_cast hclock ▸ hle
  have hkept {e : DelayedAddress} (he : Known (w.pool q) e) :
      e.nextTestTime.nanos ≤ w'.clock + maxDelay :=
    (hw.entries e he).trans (by omega)
  have hslept {id : TaskId} {deadline : ℕ} (hid : (w.pool q).task id = .nextBroken (.sleep deadline)) :
      deadline ≤ w'.clock + maxDelay :=
    (hw.sleeps id deadline hid).trans (by omega)
  by_cases hq : l.pool = q
  · obtain ⟨q',actor,i⟩ := l
    obtain rfl : q' = q := hq
    dsimp only at hclock hm
    refine ⟨fun e he => ?_,fun id deadline hid => ?_⟩
    · rcases due_of_move hm he with hold | hdue
      · exact hkept hold
      · rw [hclock]
        exact hdue
    · rcases sleep_of_move hm hid with hold | ⟨d,hd,hdue⟩
      · exact hslept hold
      · have hbound := hkept (.inl hd)
        omega
  · have hsame := hother q (Ne.symm hq)
    exact ⟨fun e he => hkept (hsame ▸ he),fun id deadline hid => hslept (hsame ▸ hid)⟩

/-- No test is put off for longer than the failures of its address allow: every entry in the
heap, or in the hands of a task, carries a time that was computed at an earlier reading of
the clock, for no more failures than the address has had so far. So it is due within 64
seconds from now, and no sleep of the doctor lasts longer. -/
theorem justified_of_run {ls : List (Label π Channel)} {u : World π Channel}
    (hr : run World.step World.init ls = some u) (q : π) :
    (∀ e, Known (u.pool q) e →
      Made u.clock (tally World.step (failure q e.address) World.init ls) e ∧
        e.nextTestTime.nanos ≤ u.clock + maxDelay) ∧
      ∀ id deadline, (u.pool q).task id = .nextBroken (.sleep deadline) →
        deadline ≤ u.clock + maxDelay := by
  have hmade (a : IpAddr) : ∀ e, Known (u.pool q) e → e.address = a →
      Made u.clock (0 + tally World.step (failure q a) World.init ls) e :=
    run_tally (I := fun v n => ∀ e, Known (v.pool q) e → e.address = a → Made v.clock n e)
      (P := fun _ _ => True) (fun _ _ _ _ hw _ h _ he ha => made_step hw h he ha)
      (fun e he => absurd he (not_known_init q e)) (along_of_forall (fun _ _ _ => trivial) _) hr
  have hpunctual : Punctual q u :=
    run_invariant (P := fun _ _ => True) (fun _ _ _ hw _ h => punctual_step hw h) (punctual_init q)
      (along_of_forall (fun _ _ _ => trivial) _) hr
  refine ⟨fun e he => ⟨?_,hpunctual.entries e he⟩,hpunctual.sleeps⟩
  simpa only [Nat.zero_add] using hmade e.address e he rfl

/-- A server is reported broken, and the doctor sleeps until its test is due. -/
def putToSleep : List (Label Unit Unit) :=
  List.replicate 2 (.quiet () (.task (.report 0 (.v4 1))) 0) ++ [.quiet () (.task .doctor) 0]

theorem justified_putToSleep : ∃ u : World Unit Unit,
    run World.step World.init putToSleep = some u ∧
      (∃ e, Known (u.pool ()) e ∧
        Made u.clock (tally World.step (failure () e.address) World.init putToSleep) e) ∧
      1000000001 ≤ u.clock + maxDelay := by
  have hrun : ∃ u : World Unit Unit, ∃ e : DelayedAddress,
      run World.step World.init putToSleep = some u ∧ (u.pool ()).lists.broken.addresses = [e] ∧
        (u.pool ()).task .doctor = .nextBroken (.sleep 1000000001) := ⟨_,_,rfl,rfl,rfl⟩
  obtain ⟨u,e,hu,he,hsleep⟩ := hrun
  obtain ⟨hentries,hdoctor⟩ := justified_of_run hu ()
  have hknown : Known (u.pool ()) e := .inl (he ▸ List.mem_singleton_self e)
  exact ⟨u,hu,⟨e,hknown,(hentries e hknown).1⟩,hdoctor .doctor _ hsleep⟩

end Schedule
end SodaPool
