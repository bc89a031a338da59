import SodaPool.Moves

/-!
# At most one entry per address

`check_dns` builds its lists from an answer without repetitions, so what it publishes
lists no address twice. An insertion into the heap first drops the entries of its address,
so the heap never holds two. `add` appends to the ready list without a look, and it is the
only write that can make a second entry.
-/

namespace SodaPool
namespace Uniqueness

open Containers Transition

variable {π Channel : Type}

/-- An answer lists each address at most once. -/
def DistinctAnswer (l : Label π Channel) : Prop := ∀ answer ∈ l.input.answer, answer.Nodup

instance (l : Label π Channel) : Decidable (DistinctAnswer l) :=
  inferInstanceAs (Decidable (∀ answer ∈ l.input.answer, answer.Nodup))

/-- No `check_dns` holds an address twice. -/
def ChecksDistinct (p : Pool Channel) : Prop :=
  ∀ id c, p.task id = .checkDns c → c.addresses.Nodup

/-- At most one ready channel per address. -/
def ReadyUnique (p : Pool Channel) : Prop := Unique Prod.fst p.lists.ready.channels

theorem checksDistinct_move {p p' : Pool Channel} {actor : Actor} {i : Input Channel}
    (hp : ChecksDistinct p) (hd : ∀ answer ∈ i.answer, answer.Nodup) (hm : p.Move actor i p') :
    ChecksDistinct p' := by
  apply hm.checkDns_rule List.nodup_nil ?_ hp
  intro c c' hc hstep
  rcases CheckDns.step_addresses hstep with ⟨-,ha⟩ | ⟨-,hperm⟩
  · exact hd _ ha
  · exact hperm.nodup_iff.mpr hc

theorem checksDistinct_init : (World.init : World π Channel).Every ChecksDistinct := by
  intro q id c hc
  cases id <;> simp [World.init,Pool.init] at hc
  subst hc
  exact List.nodup_nil

variable [DecidableEq π]

/-- An address that is added is not yet in the ready list. -/
def AddsAbsent (w : World π Channel) (l : Label π Channel) : Prop :=
  ∀ ip channel, w.write l = .add ip channel → ip ∉ (w.pool l.pool).lists.readyIps

theorem checksDistinct_step {w w' : World π Channel} {l : Label π Channel}
    (hw : w.Every ChecksDistinct) (hd : DistinctAnswer l) (h : w.step l = some w') :
    w'.Every ChecksDistinct :=
  World.every_step h hw (checksDistinct_move (hw _) hd)

/-- What `check_dns` publishes is unique. -/
theorem unique_of_replaceReady {p : Pool Channel} {actor : Actor} {i : Input Channel}
    {new : List (IpAddr × Channel)} (hp : ChecksDistinct p)
    (h : p.write actor i = .replaceReady new) : Unique Prod.fst new := by
  obtain ⟨id,l,-,hl,rfl⟩ := Pool.write_eq_replaceReady h
  have hnodup : l.filed.Nodup := hp id _ hl
  exact (List.nodup_append.mp hnodup).1

/-- At most one broken entry per address. -/
def BrokenUnique (p : Pool Channel) : Prop :=
  Unique DelayedAddress.address p.lists.broken.addresses

theorem unique_of_replaceBroken {p : Pool Channel} {actor : Actor} {i : Input Channel}
    {new : List DelayedAddress} (hp : ChecksDistinct p)
    (h : p.write actor i = .replaceBroken new) : Unique DelayedAddress.address new := by
  obtain ⟨id,l,-,hl,rfl⟩ := Pool.write_eq_replaceBroken h
  have hnodup : l.filed.Nodup := hp id _ hl
  exact (List.nodup_append.mp hnodup).2.1

theorem brokenUnique_step {w w' : World π Channel} {l : Label π Channel}
    (hw : w.Every ChecksDistinct) (hu : w.Every BrokenUnique) (h : w.step l = some w') :
    w'.Every BrokenUnique := by
  apply World.every_step h hu
  intro hm
  have hold := hu l.pool
  rw [BrokenUnique,hm.lists.2]
  cases hwrite : (w.pool l.pool).write l.actor l.input with
  | replaceBroken new => exact unique_of_replaceBroken (hw l.pool) hwrite
  | insert entry => exact hold.putLast entry
  | pop entry => exact hold.sublist List.erase_sublist
  | nothing | replaceReady | add | remove => exact hold

/-- No heap ever holds two entries of one address, so `get_address` finds every entry. -/
theorem brokenUnique_of_run {ls : List (Label π Channel)} {u : World π Channel}
    (hd : ∀ l ∈ ls, DistinctAnswer l) (hr : run World.step World.init ls = some u) (q : π) :
    BrokenUnique (u.pool q) ∧ ∀ d ∈ (u.pool q).lists.broken.addresses,
      ∀ order, (u.pool q).lists.broken.getAddress d.address order = some d := by
  have hstep (w : World π Channel) (l : Label π Channel) (w' : World π Channel)
      (hw : w.Every ChecksDistinct ∧ w.Every BrokenUnique) (hl : DistinctAnswer l)
      (h : w.step l = some w') : w'.Every ChecksDistinct ∧ w'.Every BrokenUnique :=
    ⟨checksDistinct_step hw.1 hl h,brokenUnique_step hw.1 hw.2 h⟩
  have hinit : (World.init : World π Channel).Every BrokenUnique := fun _ => List.nodup_nil
  have hu := run_invariant (I := fun w => w.Every ChecksDistinct ∧ w.Every BrokenUnique) hstep
    ⟨checksDistinct_init,hinit⟩ (along_of_forall (fun _ => hd) _) hr
  exact ⟨hu.2 q,fun _ => BrokenEndpoints.getAddress_of_mem (hu.2 q)⟩

theorem readyUnique_step {w w' : World π Channel} {l : Label π Channel}
    (hw : w.Every ChecksDistinct) (hu : w.Every ReadyUnique) (ha : AddsAbsent w l)
    (h : w.step l = some w') : w'.Every ReadyUnique := by
  apply World.every_step h hu
  intro hm
  have hold := hu l.pool
  rw [ReadyUnique,hm.lists.1]
  cases hwrite : (w.pool l.pool).write l.actor l.input with
  | replaceReady new => exact unique_of_replaceReady (hw l.pool) hwrite
  | add ip channel => exact (unique_append_singleton Prod.fst).mpr ⟨hold,ha ip channel hwrite⟩
  | remove ip => exact hold.removeFirst ip
  | nothing | replaceBroken | insert | pop => exact hold

theorem addsAbsent_of_readyUnique {w w' : World π Channel} {l : Label π Channel}
    (h : w.step l = some w') (hu : w'.Every ReadyUnique) : AddsAbsent w l := by
  intro ip channel hwrite
  have hm := (World.step_move h).2.2.1
  have hnew := hu l.pool
  rw [World.write] at hwrite
  rw [ReadyUnique,hm.lists.1,hwrite] at hnew
  exact ((unique_append_singleton Prod.fst).mp hnew).2

/-- The ready lists stay unique along a run exactly when every `add` of the run finds its
address absent. -/
theorem readyUnique_iff {ls : List (Label π Channel)} {u : World π Channel}
    (hd : ∀ l ∈ ls, DistinctAnswer l) (hr : run World.step World.init ls = some u) :
    Always World.step (World.Every ReadyUnique) World.init ls ↔
      Along World.step AddsAbsent World.init ls :=
  always_iff_along (fun _ _ _ => checksDistinct_step)
    (fun _ _ _ hw hu _ ha h => readyUnique_step hw hu ha h)
    (fun _ _ _ _ _ _ h hu => addsAbsent_of_readyUnique h hu)
    checksDistinct_init (fun _ => List.nodup_nil) (along_of_forall (fun _ => hd) _) hr

/-- The look-up of one address, which refuses the connection. -/
def refused : List (Label Unit Unit) :=
  .answered () .dns 0 [.v4 1]::List.replicate 5 (.quiet () (.task .dns) 0)

/-- The doctor has popped the address and connects to it; `check_dns` then finds it in
neither list and connects to it as well. -/
def race : List (Label Unit Unit) :=
  refused ++ [.quiet () (.task .doctor) 2000000000,.answered () .dns 2000000000 [.v4 1],
    .quiet () (.task .dns) 2000000000,.quiet () (.task .dns) 2000000000,
    .connected () .dns 2000000000 (),.quiet () (.task .dns) 2000000000,
    .connected () .doctor 2000000000 (),.quiet () (.task .doctor) 2000000000]

/-- One address is refused and another one is reported: the heap holds both. -/
theorem brokenUnique_refused : ∃ u : World Unit Unit,
    run World.step World.init (refused ++ [.quiet () (.task (.report 0 (.v4 2))) 1,
      .quiet () (.task (.report 0 (.v4 2))) 2]) = some u ∧
      (u.pool ()).lists.brokenIps = [.v4 1,.v4 2] ∧ BrokenUnique (u.pool ()) := by
  have h : (run World.step World.init (refused ++ [.quiet () (.task (.report 0 (.v4 2))) 1,
      .quiet () (.task (.report 0 (.v4 2))) 2])).map (fun u => (u.pool ()).lists.brokenIps) =
      some [.v4 1,.v4 2] := by decide
  obtain ⟨u,hu,hips⟩ := Option.map_eq_some_iff.mp h
  exact ⟨u,hu,hips,(brokenUnique_of_run (by decide) hu ()).1⟩

theorem race_run : ∃ u, run World.step World.init race = some u ∧
    (u.pool ()).lists.readyIps = [.v4 1,.v4 1] := by
  have h : (run World.step World.init race).map (fun u => (u.pool ()).lists.readyIps) =
      some [.v4 1,.v4 1] := by decide
  exact Option.map_eq_some_iff.mp h

/-- Both put it into the ready list. -/
theorem readyUnique_fails : ∃ (ls : List (Label Unit Unit)) (u : World Unit Unit),
    (∀ l ∈ ls, DistinctAnswer l) ∧ run World.step World.init ls = some u ∧
      ¬ u.Every ReadyUnique := by
  obtain ⟨u,hu,hips⟩ := race_run
  refine ⟨race,u,by decide,hu,fun h => ?_⟩
  have hnodup : (u.pool ()).lists.readyIps.Nodup := h ()
  rw [hips] at hnodup
  simp at hnodup

/-- The second `add` of the race is the one that finds its address there. -/
theorem not_addsAbsent_race : ¬ Along World.step AddsAbsent World.init race := by
  obtain ⟨u,hu,hips⟩ := race_run
  intro ha
  have hall := (readyUnique_iff (by decide) hu).mpr ha
  have hnodup : (u.pool ()).lists.readyIps.Nodup := hall.last hu ()
  rw [hips] at hnodup
  simp at hnodup

/-- Two servers. The first accepts and is ready; the second refuses, and the doctor gets it back.
The first is handed out, reported and tested in vain; a look-up finds both. The second is
reported as well, so a call makes a forced recheck, in which the first refuses again. -/
def rechecked : List (Label Unit Unit) :=
  [.answered () .dns 0 [.v4 1,.v4 2],.quiet () (.task .dns) 0,.quiet () (.task .dns) 0,
    .connected () .dns 0 ()] ++ List.replicate 5 (.quiet () (.task .dns) 0) ++
  [.quiet () (.task .doctor) 2000000000,.connected () .doctor 2000000000 (),
    .quiet () (.task .doctor) 2000000000,.quiet () (.get 0) 2000000000] ++
  List.replicate 2 (.quiet () (.task (.report 0 (.v4 1))) 2000000000) ++
  List.replicate 3 (.quiet () (.task .doctor) 4000000000) ++
  .answered () .dns 5000000000 [.v4 2,.v4 1]::
    List.replicate 5 (.quiet () (.task .dns) 5000000000) ++
  List.replicate 2 (.quiet () (.task (.report 1 (.v4 2))) 5000000000) ++
  List.replicate 9 (.quiet () (.get 1) 5000000000) ++
  [.quiet () (.task (.future 1 1)) 5000000000,.quiet () (.task (.future 1 0)) 5000000000]

/-- The look-up of the recheck has failed; with its end the other two futures are dropped. -/
def completion : Label Unit Unit := .quiet () (.task (.future 1 0)) 5000000000

/-- The call returns, and the doctor gets the first server back. -/
def recovered : List (Label Unit Unit) :=
  [.quiet () (.get 1) 5000000000,.quiet () (.task .doctor) 10000000000,
    .connected () .doctor 10000000000 (),.quiet () (.task .doctor) 10000000000]

def served : List (Label Unit Unit) := rechecked ++ completion::recovered

theorem served_run : ∃ u : World Unit Unit, run World.step World.init served = some u ∧
    (u.pool ()).lists.readyIps = [.v4 1] ∧ (u.pool ()).lists.brokenIps = [.v4 2] := by
  have h : (run World.step World.init served).map (fun u =>
      ((u.pool ()).lists.readyIps,(u.pool ()).lists.brokenIps)) =
      some ([.v4 1],[.v4 2]) := by decide
  obtain ⟨u,hu,heq⟩ := Option.map_eq_some_iff.mp h
  exact ⟨u,hu,Prod.mk.inj heq⟩

/-- Futures are dropped in one step of the run only. -/
theorem along_served {P : World Unit Unit → Label Unit Unit → Prop}
    (h : ∀ w l, ¬ (w.pool l.pool).Dropping l.actor → P w l)
    (hc : ∀ w, run World.step World.init rechecked = some w → P w completion) :
    Along World.step P World.init served := by
  refine along_append.mpr ⟨?_,fun w hw => ⟨hc w hw,fun w' _ => ?_⟩⟩
  · have hrechecked : Along World.step (fun (w : World Unit Unit) l =>
        ¬ (w.pool l.pool).Dropping l.actor) World.init rechecked := by decide
    exact hrechecked.mono h
  · have hrecovered : ∀ l ∈ recovered, ∀ w : World Unit Unit,
        ¬ (w.pool l.pool).Dropping l.actor := by
      rintro l (_ | ⟨_,_ | ⟨_,_ | ⟨_,_ | ⟨_,⟨⟩⟩⟩⟩⟩) w <;> exact id
    exact along_of_forall (fun w l hl => h w l (hrecovered l hl w)) w'

/-- None of the futures that are dropped looks the domain up. -/
theorem rechecked_future {w : World Unit Unit} (h : run World.step World.init rechecked = some w)
    (number : ℕ) (c : CheckDns Unit) : (w.pool ()).task (.future 1 (number+1)) ≠ .checkDns c := by
  cases h
  match number with
  | 0 | 1 | _+2 => exact nofun

theorem drops_completion {p : Pool Unit} {id : TaskId} (h : p.Drops completion.actor id) :
    ∃ number, id = .future 1 (number+1) := by
  cases id with
  | future call number =>
    obtain ⟨⟨-,rfl⟩,hnumber⟩ := h
    obtain ⟨n,rfl⟩ := Nat.exists_eq_succ_of_ne_zero hnumber
    exact ⟨n,rfl⟩
  | dns | doctor | report => cases h

theorem served_quiescent {u : World Unit Unit} (h : run World.step World.init served = some u) :
    (u.pool ()).Quiescent := by
  constructor
  · intro id
    match id with
    | .dns | .doctor =>
      cases h
      trivial
    | .report call ip =>
      by_cases hid : (call,ip) = (0,.v4 1) ∨ (call,ip) = (1,.v4 2)
      · cases h
        rcases hid with hid | hid <;> cases hid <;> trivial
      · have hls : ∀ l ∈ served, l.actor ≠ .task (.report call ip) := by
          have hactors : ∀ l ∈ served, l.actor ∈ [.task .dns,.task .doctor,.get 0,.get 1,
              .task (.future 1 0),.task (.future 1 1),.task (.report 0 (.v4 1)),
              .task (.report 1 (.v4 2))] := by decide
          intro l hl hactor
          have hmem := hactors l hl
          rw [hactor] at hmem
          exact hid (by simpa using hmem)
        rw [World.run_task_of_not_future (by simp) hls h ()]
        trivial
    | .future 0 _ | .future 1 0 | .future 1 1 | .future 1 2 | .future 1 (_+3) | .future (_+2) _ =>
      cases h
      trivial
  · intro call
    cases h
    match call with
    | 0 | 1 | _+2 => trivial

end Uniqueness
end SodaPool
