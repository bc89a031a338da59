import SodaPool.Provenance
import SodaPool.Uniqueness

/-!
# A withdrawn address

Once the answers no longer list an address, the next `check_dns` publishes a ready list
without it. The address can come back only with what was under way before: a recheck that
has connected to it, or a `check_dns` with an older answer.
-/

namespace SodaPool
namespace Withdrawal

open Containers Transition Provenance

variable {π Channel : Type} [DecidableEq π]

/-- A `check_dns` from before it looks the domain up, in the state `w`, to its end. Other
steps come in between at any point. -/
structure Passage (q : π) (t : TaskId) (w : World π Channel) where
  looking : List (Label π Channel)
  filled : World π Channel
  locals : Locals Channel
  publish : Input Channel
  published : World π Channel
  between : List (Label π Channel)
  finished : World π Channel
  last : Input Channel
  completed : World π Channel
  starts : (w.pool q).task t = .checkDns .resolve
  looks : run World.step w looking = some filled
  fills : (filled.pool q).task t = .checkDns (.replaceReady locals)
  publishes : filled.step ⟨q,.task t,publish⟩ = some published
  waits : run World.step published between = some finished
  alone : ∀ l ∈ between, l.pool = q → l.actor ≠ .task t
  finishes : (finished.pool q).task t = .checkDns (.replaceBroken locals)
  completes : finished.step ⟨q,.task t,last⟩ = some completed

namespace Passage

variable {q : π} {t : TaskId} {w : World π Channel}

/-- The steps after the ready list is published. -/
def rest (c : Passage q t w) : List (Label π Channel) := c.between ++ [⟨q,.task t,c.last⟩]

def labels (c : Passage q t w) : List (Label π Channel) :=
  c.looking ++ ⟨q,.task t,c.publish⟩::c.rest

theorem run_rest (c : Passage q t w) : run World.step c.published c.rest = some c.completed := by
  apply run_append.mpr ⟨c.finished,c.waits,?_⟩
  simp [run,c.completes]

theorem run_labels (c : Passage q t w) : run World.step w c.labels = some c.completed :=
  run_append.mpr ⟨c.filled,c.looks,run_cons_eq_some.mpr ⟨c.published,c.publishes,c.run_rest⟩⟩

end Passage

variable (q : π) (a : IpAddr)

/-- No answer for the pool contains the address. -/
def Without (l : Label π Channel) : Prop := l.pool = q → ∀ answer ∈ l.input.answer, a ∉ answer

instance (l : Label π Channel) : Decidable (Without q a l) :=
  inferInstanceAs (Decidable (l.pool = q → ∀ answer ∈ l.input.answer, a ∉ answer))

/-- A step that does not put the address back into the ready list: it neither adds a channel
for it nor publishes a list with one. -/
def KeepsOut (w : World π Channel) (l : Label π Channel) : Prop :=
  l.pool = q → (∀ channel, w.write l ≠ .add a channel) ∧
    ∀ new, w.write l = .replaceReady new → a ∉ keys Prod.fst new

instance (x : Write Channel) : Decidable ((∀ channel, x ≠ .add a channel) ∧
    ∀ new, x = .replaceReady new → a ∉ keys Prod.fst new) :=
  match x with
  | .add ip channel => decidable_of_iff (ip ≠ a) (by simp)
  | .replaceReady new => decidable_of_iff (a ∉ keys Prod.fst new) (by simp)
  | .nothing | .replaceBroken _ | .insert _ | .remove _ | .pop _ => isTrue (by simp)

instance (w : World π Channel) (l : Label π Channel) : Decidable (KeepsOut q a w l) :=
  inferInstanceAs (Decidable (l.pool = q → _ ∧ _))

def NotReady (w : World π Channel) : Prop := a ∉ (w.pool q).lists.readyIps

variable {q : π} {a : IpAddr}

omit [DecidableEq π] in
/-- A `check_dns` that was not told of the address files nothing under it. -/
theorem not_mem_addresses_of_move {t : TaskId} {p p' : Pool Channel} {actor : Actor}
    {i : Input Channel} (hm : p.Move actor i p') (hi : ∀ answer ∈ i.answer, a ∉ answer)
    (hp : ∀ c, p.task t = .checkDns c → a ∉ c.addresses) :
    ∀ c, p'.task t = .checkDns c → a ∉ c.addresses := by
  intro c hc
  rcases hm.task_cases t with hsame | hfresh | ⟨lists,-,hown⟩
  · exact hp c (hsame ▸ hc)
  · rw [hc] at hfresh
    cases c <;> simp only [Task.Fresh] at hfresh
    exact List.not_mem_nil
  · rcases Task.step_eq_checkDns (hc ▸ hown) with ⟨b,hb,hnext⟩ | rfl
    · rcases CheckDns.step_addresses hnext with ⟨-,ha⟩ | ⟨-,hperm⟩
      · exact hi _ ha
      · exact fun hmem => hp b hb (hperm.mem_iff.mp hmem)
    · exact List.not_mem_nil

/-- The list that a passage publishes does not have the address. -/
theorem Passage.notReady_published {t : TaskId} {w : World π Channel} (c : Passage q t w)
    (hno : ∀ l ∈ c.labels, Without q a l) : NotReady q a c.published := by
  have hstep (s : World π Channel) (l : Label π Channel) (s' : World π Channel)
      (hs : ∀ b, (s.pool q).task t = .checkDns b → a ∉ b.addresses) (hl : Without q a l)
      (h : s.step l = some s') : ∀ b, (s'.pool q).task t = .checkDns b → a ∉ b.addresses :=
    World.pool_step (I := fun p => ∀ b, p.task t = .checkDns b → a ∉ b.addresses) h hs
      (fun hq hm => not_mem_addresses_of_move hm (hl hq) hs)
  have hstart : ∀ b, (w.pool q).task t = .checkDns b → a ∉ b.addresses := by
    intro b hb
    cases c.starts.symm.trans hb
    exact List.not_mem_nil
  have hlooking : ∀ l ∈ c.looking, Without q a l := fun l hl =>
    hno l (List.mem_append_left _ hl)
  have hfilled : a ∉ c.locals.filed :=
    run_invariant (I := fun s => ∀ b, (s.pool q).task t = .checkDns b → a ∉ b.addresses) hstep
      hstart (along_of_forall (fun _ => hlooking) w) c.looks _ c.fills
  have hm := (World.step_move c.publishes).2.2.1
  have hwrite : (c.filled.pool q).write (.task t) c.publish = .replaceReady c.locals.ready := by
    rw [Pool.write,c.fills]
    rfl
  rw [NotReady,Lists.readyIps,ReadyChannels.ips,hm.lists.1,hwrite]
  exact fun hmem => hfilled (List.mem_append_left _ hmem)

theorem notReady_step {w w' : World π Channel} {l : Label π Channel} (hw : NotReady q a w)
    (hl : KeepsOut q a w l) (h : w.step l = some w') : NotReady q a w' := by
  apply World.pool_step (I := fun p => a ∉ p.lists.readyIps) h hw
  rintro rfl hm
  obtain ⟨hadd,hreplace⟩ := hl rfl
  rw [Lists.readyIps,ReadyChannels.ips,hm.lists.1]
  cases hwrite : (w.pool l.pool).write l.actor l.input with
  | replaceReady new => exact hreplace new hwrite
  | add ip channel =>
    have hne : a ≠ ip := by
      rintro rfl
      exact hadd channel hwrite
    simp only [Write.ready,keys,List.map_append,List.mem_append,not_or]
    exact ⟨hw,by simpa using hne⟩
  | remove ip => exact fun hmem => hw (keys_removeFirst_subset Prod.fst ip _ hmem)
  | nothing | replaceBroken | insert | pop => exact hw

theorem keepsOut_of_notReady {w w' : World π Channel} {l : Label π Channel}
    (h : w.step l = some w') (hw : NotReady q a w') : KeepsOut q a w l := by
  rintro rfl
  have hm := (World.step_move h).2.2.1
  rw [NotReady,Lists.readyIps,ReadyChannels.ips,hm.lists.1] at hw
  refine ⟨fun channel hwrite => ?_,fun new hwrite => ?_⟩
  · rw [World.write] at hwrite
    simp [hwrite,Write.ready] at hw
  · rw [World.write] at hwrite
    rw [hwrite] at hw
    exact hw

/-- While the address is not ready, no call is given it. -/
theorem not_given_of_always {call : ℕ} {channel : Channel} {w u : World π Channel}
    {ls : List (Label π Channel)} (ha : Always World.step (NotReady q a) w ls)
    (hstart : given ((w.pool q).get call) ≠ some (a,channel))
    (hr : run World.step w ls = some u) : given ((u.pool q).get call) ≠ some (a,channel) := by
  induction ls generalizing w with
  | nil =>
    cases hr
    exact hstart
  | cons l ls ih =>
    obtain ⟨v,hv,hrun⟩ := run_cons_eq_some.mp hr
    apply ih (ha.2 v hv) ?_ hrun
    intro hgiven
    rcases given_of_step hv hgiven with hold | ⟨-,-,-,hmem⟩
    · exact hstart hold
    · exact ha.1 (List.mem_map_of_mem hmem)

/-- After a `check_dns` that was not told of the address has published, the address is never
ready again exactly when no step puts it back; no later call returns it then. -/
theorem staysOut_of_run {t : TaskId} {w u : World π Channel} {ls : List (Label π Channel)}
    (c : Passage q t w) (hr : run World.step c.completed ls = some u)
    (hno : ∀ l ∈ c.labels ++ ls, Without q a l) :
    (Always World.step (NotReady q a) c.published (c.rest ++ ls) ↔
        Along World.step (KeepsOut q a) c.published (c.rest ++ ls)) ∧
      (Along World.step (KeepsOut q a) c.published (c.rest ++ ls) →
        ∀ call channel, (c.completed.pool q).get call = .start →
          ((u.pool q).get call).result ≠ some (some (a,channel))) := by
  have hpublished : NotReady q a c.published :=
    c.notReady_published (fun l hl => hno l (List.mem_append_left ls hl))
  have hrun : run World.step c.published (c.rest ++ ls) = some u :=
    run_append.mpr ⟨c.completed,c.run_rest,hr⟩
  have hiff : Always World.step (NotReady q a) c.published (c.rest ++ ls) ↔
      Along World.step (KeepsOut q a) c.published (c.rest ++ ls) :=
    always_iff_along (I := fun _ => True) (P := fun _ _ => True) (fun _ _ _ _ _ _ => trivial)
      (fun _ _ _ _ hw _ hl h => notReady_step hw hl h)
      (fun _ _ _ _ _ _ h hw => keepsOut_of_notReady h hw) trivial hpublished
      (along_of_forall (fun _ _ _ => trivial) _) hrun
  refine ⟨hiff,fun hkeeps call channel hcall hres => ?_⟩
  have halways : Always World.step (NotReady q a) c.completed ls :=
    (hiff.mpr hkeeps).of_append c.run_rest
  have hstart : given ((c.completed.pool q).get call) ≠ some (a,channel) := by simp [hcall,given]
  apply not_given_of_always halways hstart hr
  cases hg : (u.pool q).get call <;> simp_all [GetChannel.result,given]

/-- The domain resolves to another address, and the connection to it ends. -/
def looked (outcome : Option Unit) : List (Label Unit Unit) :=
  [.answered () .dns 2000000000 [.v4 2],.quiet () (.task .dns) 2000000000,
    .quiet () (.task .dns) 2000000000,⟨(),.task .dns,⟨2000000000,none,outcome,false,0⟩⟩]

def still : Input Unit := { now := 2000000000 }

/-- The doctor takes the refused address out of the heap, to connect to it once more. -/
def popped : List (Label Unit Unit) :=
  Uniqueness.refused ++ [.quiet () (.task .doctor) 2000000000]

/-- The doctor's connection succeeds, and a call of `get_channel` is made. -/
def revived : List (Label Unit Unit) :=
  [.connected () .doctor 2000000000 (),.quiet () (.task .doctor) 2000000000,
    .quiet () (.get 0) 2000000000]

/-- The doctor brings the withdrawn address back, and the call returns it. -/
theorem staysOut_fails : ∃ (w u : World Unit Unit) (c : Passage () .dns w),
    run World.step World.init popped = some w ∧ run World.step c.completed revived = some u ∧
      (∀ l ∈ c.labels ++ revived, Without () (.v4 1) l) ∧
      (c.completed.pool ()).get 0 = .start ∧
      ((u.pool ()).get 0).result = some (some (.v4 1,())) := by
  refine ⟨_,_,⟨looked none,_,_,still,_,[],_,still,_,rfl,rfl,rfl,rfl,rfl,?_,rfl,rfl⟩,rfl,rfl,?_,
    rfl,rfl⟩
  · simp
  · simp only [Passage.labels,Passage.rest]
    decide

/-- Nobody holds the address when the `check_dns` publishes the other one. -/
theorem staysOut_refused : ∃ (w u : World Unit Unit) (c : Passage () .dns w),
    run World.step World.init Uniqueness.refused = some w ∧
      run World.step c.completed [.quiet () (.get 0) 2000000000] = some u ∧
      ((u.pool ()).get 0).result = some (some (.v4 2,())) ∧
      ((u.pool ()).get 0).result ≠ some (some (.v4 1,())) := by
  have h : ∃ (w u : World Unit Unit) (c : Passage () .dns w),
      run World.step World.init Uniqueness.refused = some w ∧
        run World.step c.completed [.quiet () (.get 0) 2000000000] = some u ∧
        (∀ l ∈ c.labels ++ [.quiet () (.get 0) 2000000000], Without () (.v4 1) l) ∧
        Along World.step (KeepsOut () (.v4 1)) c.published
          (c.rest ++ [.quiet () (.get 0) 2000000000]) ∧
        (c.completed.pool ()).get 0 = .start ∧
        ((u.pool ()).get 0).result = some (some (.v4 2,())) := by
    refine ⟨_,_,⟨looked (some ()),_,_,still,_,[],_,still,_,rfl,rfl,rfl,rfl,rfl,?_,rfl,rfl⟩,rfl,rfl,
      ?_,?_,rfl,rfl⟩
    · simp
    · simp only [Passage.labels,Passage.rest]
      decide
    · simp only [Passage.rest]
      decide
  obtain ⟨w,u,c,hw,hu,hno,hkeeps,hcall,hres⟩ := h
  exact ⟨w,u,c,hw,hu,hres,(staysOut_of_run c hu hno).2 hkeeps 0 () hcall⟩

end Withdrawal
end SodaPool
