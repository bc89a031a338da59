import SodaPool.Pool

/-!
# What a step does to a pool

Every step is one of five moves of one pool, and every move writes to the two lists in
one of seven ways. The facts about whole runs are proved from the moves and from the
writes; none of them opens the step functions again.
-/

namespace SodaPool

open Containers

variable {π Channel : Type}

/-- What one critical section writes. -/
inductive Write (Channel : Type)
  | nothing
  | replaceReady (new : List (IpAddr × Channel))
  | replaceBroken (new : List DelayedAddress)
  | add (ip : IpAddr) (channel : Channel)
  | insert (entry : DelayedAddress)
  | remove (ip : IpAddr)
  | pop (entry : DelayedAddress)

namespace Write

/-- The ready list after the write. -/
def ready (l : List (IpAddr × Channel)) : Write Channel → List (IpAddr × Channel)
  | .replaceReady new => new
  | .add ip channel => l ++ [(ip,channel)]
  | .remove ip => removeFirst Prod.fst ip l
  | _ => l

/-- The broken heap after the write. -/
def broken (l : List DelayedAddress) : Write Channel → List DelayedAddress
  | .replaceBroken new => new
  | .insert entry => putLast DelayedAddress.address entry l
  | .pop entry => l.erase entry
  | _ => l

instance (x : Write Channel) (P : List DelayedAddress → Prop) [DecidablePred P] :
    Decidable (∀ new, x = .replaceBroken new → P new) :=
  match x with
  | .replaceBroken new => decidable_of_iff (P new) (by simp)
  | .nothing | .replaceReady _ | .add _ _ | .insert _ | .remove _ | .pop _ => isTrue (by simp)

end Write

namespace Lists

/-- The addresses with a ready channel. -/
abbrev readyIps (s : Lists Channel) : List IpAddr := s.ready.ips

/-- The addresses in the heap. -/
abbrev brokenIps (s : Lists Channel) : List IpAddr := keys DelayedAddress.address s.broken.addresses

end Lists

/-- A call that is not in flight. -/
def GetChannel.Ended : GetChannel Channel → Prop
  | .start | .cancelled | .done _ => True
  | _ => False

/-- The steps of a call: its own, and those of its futures. -/
def Actor.Serves (call : ℕ) : Actor → Prop
  | .get call' => call' = call
  | .task (.future call' _) => call' = call
  | _ => False

/-- Who takes a step of its own or is cancelled. -/
def Label.Owner (l : Label π Channel) (c : π × ℕ) : Prop :=
  l.pool = c.1 ∧ (l.actor = .get c.2 ∨ l.actor = .cancel c.2)

/-- How far a call has come. -/
def GetChannel.rank : GetChannel Channel → ℕ
  | .start => 0
  | .tryRead => 1
  | .ageTest | .requestWait => 2
  | .dropRead | .awaitWait => 3
  | .requestWrite | .releaseWait => 4
  | .awaitWrite | .getAnyLast => 5
  | .getAnyLocked => 6
  | .stamp => 7
  | .snapshot => 8
  | .select _ => 9
  | .release _ => 10
  | .cancelled | .done _ => 11

namespace Task

/-- What the next step of a task writes. -/
def write (s : Lists Channel) (i : Input Channel) : Task Channel → Write Channel
  | .checkDns (.replaceReady l) => .replaceReady l.ready
  | .checkDns (.replaceBroken l) => .replaceBroken l.broken
  | .recheck (.add ip channel) => .add ip channel
  | .recheck (.insert entry) => .insert entry
  | .report (.remove ip) => .remove ip
  | .report (.insert entry) => .insert entry
  | .nextBroken .lock =>
    match s.broken.nextRound i.now with
    | .found entry _ => .pop entry
    | _ => .nothing
  | _ => .nothing

/-- A task that takes no step of its own. -/
def Settled : Task Channel → Prop
  | .idle => True
  | .completed _ => True
  | _ => False

/-- Only the step that takes an entry writes. -/
theorem nextBroken_step {s : Lists Channel} {i : Input Channel} {n : NextBroken}
    {r : BrokenEndpoints × (DelayedAddress ⊕ NextBroken)}
    (h : n.step s.broken i.now i.timer = some r) :
    (∃ entry rest, n = .lock ∧ s.broken.nextRound i.now = .found entry rest ∧
        r = (rest,.inl entry)) ∨
      (∃ n', r.2 = .inr n') ∧ r.1.addresses = s.broken.addresses ∧
        (nextBroken n).write s i = .nothing := by
  cases NextBroken.step_outcome h with
  | taken hmem hdue hround => exact .inl ⟨_,_,rfl,hround,rfl⟩
  | parked hn hwait hround =>
    refine .inr ⟨⟨_,rfl⟩,rfl,?_⟩
    cases hr : s.broken.nextRound i.now with
    | found entry rest => exact absurd hr (hround entry rest)
    | sleep durr => simp [write,hr]
    | wait => simp [write,hr]
  | pending hn =>
    refine .inr ⟨⟨_,rfl⟩,rfl,?_⟩
    cases n <;> first | exact absurd rfl hn | rfl
  | awake hn =>
    refine .inr ⟨⟨_,rfl⟩,rfl,?_⟩
    cases n <;> first | exact absurd rfl hn | rfl

/-- What a task does at each of its points. -/
inductive TaskStep (id : TaskId) (s : Lists Channel) (i : Input Channel) :
    Task Channel → Lists Channel → Task Channel → Prop
  | checkDns {c c' : CheckDns Channel} {s' : Lists Channel} : c.Goes s i s' (some c') →
      TaskStep id s i (.checkDns c) s' (.checkDns c')
  | checkDnsEnds {c : CheckDns Channel} {s' : Lists Channel} : c.Goes s i s' none →
      TaskStep id s i (.checkDns c) s' (resume id)
  | connected {entry : DelayedAddress} {channel : Channel} : i.outcome = some channel →
      TaskStep id s i (.recheck (.connect entry)) s (.recheck (.add entry.address channel))
  | refused {entry : DelayedAddress} : i.outcome = none →
      TaskStep id s i (.recheck (.connect entry)) s (.recheck (.insert (Recheck.reAdded i.now entry)))
  | add {ip : IpAddr} {channel : Channel} : TaskStep id s i (.recheck (.add ip channel))
      { s with ready := s.ready.add ip channel } (resume id)
  | reAdd {entry : DelayedAddress} : TaskStep id s i (.recheck (.insert entry))
      { s with broken := s.broken.insert entry } (resume id)
  | remove {ip : IpAddr} : TaskStep id s i (.report (.remove ip))
      { s with ready := s.ready.remove ip } (.report (.insert (DelayedAddress.ofAddress i.now ip)))
  | insert {entry : DelayedAddress} : TaskStep id s i (.report (.insert entry))
      { s with broken := s.broken.insert entry } (resume id)
  | taken {n : NextBroken} {b : BrokenEndpoints} {entry : DelayedAddress} :
      n.step s.broken i.now i.timer = some (b,.inl entry) →
      TaskStep id s i (.nextBroken n) { s with broken := b } (.recheck (.connect entry))
  | waits {n n' : NextBroken} {b : BrokenEndpoints} :
      n.step s.broken i.now i.timer = some (b,.inr n') →
      TaskStep id s i (.nextBroken n) { s with broken := b } (.nextBroken n')

theorem taskStep_of_step {id : TaskId} {s : Lists Channel} {i : Input Channel} {t : Task Channel}
    {r : Lists Channel × Task Channel} (h : t.step id s i = some r) : TaskStep id s i t r.1 r.2 := by
  cases t with
  | checkDns c =>
    cases h
    cases hc : (c.step s i).2 with
    | none => exact .checkDnsEnds (CheckDns.goes_of_step (Prod.ext rfl hc))
    | some c' => exact .checkDns (CheckDns.goes_of_step (Prod.ext rfl hc))
  | recheck r' =>
    cases h
    cases r' with
    | connect entry =>
      simp only [Recheck.step]
      cases ho : i.outcome with
      | none => exact .refused ho
      | some channel => exact .connected ho
    | add ip channel => exact .add
    | insert entry => exact .reAdd
  | report r' =>
    cases h
    cases r' with
    | remove ip => exact .remove
    | insert entry => exact .insert
  | nextBroken n =>
    obtain ⟨⟨b,e⟩,hstep,rfl⟩ := Option.map_eq_some_iff.mp h
    cases e with
    | inl entry => exact .taken hstep
    | inr n' => exact .waits hstep
  | idle => cases h
  | getAny => cases h
  | completed out => cases h

/-- The two lists after a step are what its write makes of them. -/
theorem step_lists {id : TaskId} {s : Lists Channel} {i : Input Channel} {t : Task Channel}
    {r : Lists Channel × Task Channel} (h : t.step id s i = some r) :
    r.1.ready.channels = (t.write s i).ready s.ready.channels ∧
      r.1.broken.addresses = (t.write s i).broken s.broken.addresses := by
  obtain ⟨s',t'⟩ := r
  cases taskStep_of_step h with
  | checkDns hgoes => cases hgoes <;> exact ⟨rfl,rfl⟩
  | checkDnsEnds hgoes => cases hgoes <;> exact ⟨rfl,rfl⟩
  | connected | refused | add | reAdd | remove | insert => exact ⟨rfl,rfl⟩
  | taken hstep =>
    obtain ⟨entry,rest,rfl,hround,heq⟩ | ⟨⟨n',hn'⟩,-⟩ := nextBroken_step hstep
    · cases heq
      have hrest := (BrokenEndpoints.nextRound_eq_found.mp hround).2.2
      subst hrest
      simp [write,hround,Write.ready,Write.broken]
    · cases hn'
  | waits hstep =>
    obtain ⟨entry,rest,-,-,heq⟩ | ⟨-,hbroken,hw⟩ := nextBroken_step hstep
    · cases heq
    · rw [hw]
      exact ⟨rfl,hbroken⟩

/-- A task as it is pushed or left behind by a completed or dropped future. -/
def Fresh (s : Lists Channel) : Task Channel → Prop
  | .idle => True
  | .completed _ => True
  | .checkDns .resolve => True
  | .recheck (.connect entry) => entry ∈ s.broken.addresses
  | _ => False

/-- A task between two operations. -/
def Between (id : TaskId) (t : Task Channel) : Prop :=
  match id,t with
  | .dns,.checkDns .resolve => True
  | .doctor,.nextBroken _ => True
  | .report _ _,.report (.remove _) => True
  | .report _ _,.idle => True
  | .future _ _,t => t.Settled
  | _,_ => False

theorem not_settled_of_step {id : TaskId} {s : Lists Channel} {i : Input Channel} {t : Task Channel}
    {r : Lists Channel × Task Channel} (h : t.step id s i = some r) : ¬ t.Settled := by
  cases t <;> simp_all [step,Settled]

/-- A task is at a `check_dns` from its previous point, or because it starts one. -/
theorem step_eq_checkDns {id : TaskId} {s s' : Lists Channel} {i : Input Channel}
    {t : Task Channel} {c' : CheckDns Channel} (h : t.step id s i = some (s',.checkDns c')) :
    (∃ c, t = .checkDns c ∧ (c.step s i).2 = some c') ∨ c' = .resolve := by
  have hresume (hid : Task.checkDns c' = resume id) : c' = .resolve := by
    cases id <;> simp_all [resume]
  generalize ht : Task.checkDns c' = t' at h
  cases taskStep_of_step h with
  | checkDns hgoes =>
    cases ht
    exact .inl ⟨_,rfl,congrArg Prod.snd hgoes.step_eq⟩
  | checkDnsEnds | add | reAdd | insert => exact .inr (hresume ht)
  | connected | refused | remove | taken | waits => cases ht

theorem write_eq_replaceReady {s : Lists Channel} {i : Input Channel} {t : Task Channel}
    {new : List (IpAddr × Channel)} (h : t.write s i = .replaceReady new) :
    ∃ l, t = .checkDns (.replaceReady l) ∧ new = l.ready := by
  revert h
  fun_cases write s i t <;> simp [eq_comm]

theorem write_eq_replaceBroken {s : Lists Channel} {i : Input Channel} {t : Task Channel}
    {new : List DelayedAddress} (h : t.write s i = .replaceBroken new) :
    ∃ l, t = .checkDns (.replaceBroken l) ∧ new = l.broken := by
  revert h
  fun_cases write s i t <;> simp [eq_comm]

theorem write_eq_add {s : Lists Channel} {i : Input Channel} {t : Task Channel} {ip : IpAddr}
    {channel : Channel} (h : t.write s i = .add ip channel) : t = .recheck (.add ip channel) := by
  revert h
  fun_cases write s i t <;> simp

theorem write_eq_remove {s : Lists Channel} {i : Input Channel} {t : Task Channel} {ip : IpAddr}
    (h : t.write s i = .remove ip) : t = .report (.remove ip) := by
  revert h
  fun_cases write s i t <;> simp

theorem write_eq_pop {s : Lists Channel} {i : Input Channel} {t : Task Channel}
    {entry : DelayedAddress} (h : t.write s i = .pop entry) :
    t = .nextBroken .lock ∧ ∃ rest, s.broken.nextRound i.now = .found entry rest := by
  revert h
  fun_cases write s i t <;> simp_all

end Task

namespace Pool

/-- The five moves: a task goes on by itself, a future completes, a call pushes its
futures, a call goes on by itself, never back, a call is cancelled. -/
inductive Move (p : Pool Channel) : Actor → Input Channel → Pool Channel → Prop
  | task {id : TaskId} {i : Input Channel} {r : Lists Channel × Task Channel} :
      (p.task id).step id p.lists i = some r →
      Move p (.task id) i { p with lists := r.1, task := Function.update p.task id r.2 }
  | yield {call number n : ℕ} {i : Input Channel} :
      p.task (.future call number) = .getAny → p.get call = .select n →
      Move p (.task (.future call number)) i (p.yield call number)
  | push {call : ℕ} {i : Input Channel} :
      p.get call = .snapshot → Move p (.get call) i (p.push call)
  | call {call : ℕ} {i : Input Channel} {g : GetChannel Channel} {lists : Lists Channel} :
      lists.ready.channels = p.lists.ready.channels → lists.broken = p.lists.broken →
      (∀ n, p.get call ≠ .select n) → p.get call ≠ .snapshot → (∀ n, g ≠ .select n) →
      (p.get call).rank < g.rank →
      Move p (.get call) i ⟨lists,p.task,Function.update p.get call g⟩
  | cancel {call : ℕ} {i : Input Channel} : Move p (.cancel call) i (p.cancel call)

theorem stepTask_move {p p' : Pool Channel} {id : TaskId} {i : Input Channel}
    (h : p.stepTask id i = some p') : Move p (.task id) i p' := by
  simp only [stepTask] at h
  split at h
  · rename_i call number hget
    split at h
    · rename_i n hsel
      cases h
      exact .yield hget hsel
    · cases h
  · obtain ⟨r,hr,rfl⟩ := Option.map_eq_some_iff.mp h
    exact .task hr

/-- What a call does at each of its points. -/
inductive CallStep [DecidableEq π] (p : Pool Channel) (r : RecheckLock π) (me : π) (call now : ℕ) :
    GetChannel Channel → RecheckLock π → Pool Channel → Prop
  | start : CallStep p r me call now .start r
      (p.getAny call (fun out => if out.isSome then .done out else .tryRead))
  | tryRead {lock : FairLock.RwLock (π × ℕ)} : r.lock.tryRead (me,call) = some lock →
      CallStep p r me call now .tryRead { r with lock := lock } (p.setGet call .ageTest)
  | busy : r.lock.tryRead (me,call) = none →
      CallStep p r me call now .tryRead r (p.setGet call .requestWait)
  | due : recheckDue r.last now → CallStep p r me call now .ageTest
      { r with tested := Function.update r.tested (me,call) r.last } (p.setGet call .dropRead)
  | recent : ¬ recheckDue r.last now → CallStep p r me call now .ageTest
      { r with lock := r.lock.releaseRead (me,call) } (p.setGet call (.done none))
  | dropRead : CallStep p r me call now .dropRead
      { r with lock := r.lock.releaseRead (me,call) } (p.setGet call .requestWrite)
  | requestWrite : CallStep p r me call now .requestWrite
      { r with lock := r.lock.request (me,call) } (p.setGet call .awaitWrite)
  | awaitWrite {lock : FairLock.RwLock (π × ℕ)} : r.lock.acquire (me,call) = some lock →
      CallStep p r me call now .awaitWrite { r with lock := lock } (p.setGet call .getAnyLocked)
  | getAnyLocked : CallStep p r me call now .getAnyLocked r
      (p.getAny call (fun out => if out.isSome then .release out else .stamp))
  | stamp : CallStep p r me call now .stamp
      { r with last := DateTime.utc now, stamps := ⟨(me,call),now,false⟩::r.stamps }
      (p.setGet call .snapshot)
  | snapshot : CallStep p r me call now .snapshot
      { r with stamps := r.stamps.map (Stamp.push (me,call)) } (p.push call)
  | release {out : Option (IpAddr × Channel)} : CallStep p r me call now (.release out)
      { r with lock := r.lock.releaseWrite (me,call) } (p.setGet call (.done out))
  | requestWait : CallStep p r me call now .requestWait
      { r with lock := r.lock.request (me,call) } (p.setGet call .awaitWait)
  | awaitWait {lock : FairLock.RwLock (π × ℕ)} : r.lock.acquire (me,call) = some lock →
      CallStep p r me call now .awaitWait { r with lock := lock } (p.setGet call .releaseWait)
  | releaseWait : CallStep p r me call now .releaseWait
      { r with lock := r.lock.releaseWrite (me,call) } (p.setGet call .getAnyLast)
  | getAnyLast : CallStep p r me call now .getAnyLast r (p.getAny call .done)

theorem stepGet_eq_some [DecidableEq π] {p p' : Pool Channel} {r r' : RecheckLock π} {me : π}
    {call now : ℕ} : p.stepGet r me call now = some (r',p') ↔
      CallStep p r me call now (p.get call) r' p' := by
  rw [stepGet]
  generalize p.get call = g
  constructor
  · intro h
    cases g with
    | tryRead =>
      cases ht : r.lock.tryRead (me,call) <;> simp only [ht] at h <;> cases h
      · exact .busy ht
      · exact .tryRead ht
    | ageTest =>
      by_cases hd : recheckDue r.last now <;> simp only [hd,if_true,if_false] at h <;> cases h
      · exact .due hd
      · exact .recent hd
    | awaitWrite =>
      obtain ⟨lock,hl,heq⟩ := Option.map_eq_some_iff.mp h
      cases heq
      exact .awaitWrite hl
    | awaitWait =>
      obtain ⟨lock,hl,heq⟩ := Option.map_eq_some_iff.mp h
      cases heq
      exact .awaitWait hl
    | select n => cases h
    | cancelled => cases h
    | done out => cases h
    | _ =>
      cases h
      constructor
  · intro h
    cases h <;> simp [*]

theorem stepGet_move [DecidableEq π] {p : Pool Channel} {r : RecheckLock π} {me : π} {call : ℕ}
    {i : Input Channel} {r' : RecheckLock π × Pool Channel}
    (h : p.stepGet r me call i.now = some r') : Move p (.get call) i r'.2 := by
  have hcall {g : GetChannel Channel} {lists : Lists Channel}
      (hready : lists.ready.channels = p.lists.ready.channels)
      (hbroken : lists.broken = p.lists.broken) (hs : ∀ n, p.get call ≠ .select n)
      (hp : p.get call ≠ .snapshot) (hg : (p.get call).rank < g.rank ∧ ∀ n, g ≠ .select n) :
      Move p (.get call) i ⟨lists,p.task,Function.update p.get call g⟩ :=
    .call hready hbroken hs hp hg.2 hg.1
  have hany {g : GetChannel Channel} (hs : ∀ n, p.get call ≠ .select n)
      (hp : p.get call ≠ .snapshot) (hg : (p.get call).rank < g.rank ∧ ∀ n, g ≠ .select n) :
      Move p (.get call) i ⟨{ p.lists with ready := p.lists.ready.getAny.2 },p.task,
        Function.update p.get call g⟩ :=
    hcall (ReadyChannels.getAny_channels p.lists.ready) rfl hs hp hg
  obtain ⟨r',p'⟩ := r'
  have hstep := stepGet_eq_some.mp h
  generalize hg : p.get call = g at hstep
  cases hstep with
  | start | getAnyLocked =>
    apply hany (by simp [hg]) (by simp [hg])
    cases p.lists.ready.getAny.1 <;> simp [hg,GetChannel.rank]
  | snapshot => exact .push hg
  | getAnyLast => exact hany (by simp [hg]) (by simp [hg]) (by simp [hg,GetChannel.rank])
  | _ => exact hcall rfl rfl (by simp [hg]) (by simp [hg]) (by simp [hg,GetChannel.rank])

theorem stepCancel_move [DecidableEq π] {p : Pool Channel} {r : RecheckLock π} {me : π} {call : ℕ}
    {i : Input Channel} {r' : RecheckLock π × Pool Channel}
    (h : p.stepCancel r me call = some r') : Move p (.cancel call) i r'.2 := by
  have hp : r'.2 = p.cancel call := by
    cases hg : p.get call <;> simp_all only [stepCancel,Option.some.injEq,reduceCtorEq] <;>
      subst h <;> rfl
  rw [hp]
  exact .cancel

/-- What the step of an actor writes. -/
def write (p : Pool Channel) : Actor → Input Channel → Write Channel
  | .task id,i => (p.task id).write p.lists i
  | _,_ => .nothing

theorem write_eq_replaceReady {p : Pool Channel} {actor : Actor} {i : Input Channel}
    {new : List (IpAddr × Channel)} (h : p.write actor i = .replaceReady new) :
    ∃ id l, actor = .task id ∧ p.task id = .checkDns (.replaceReady l) ∧ new = l.ready := by
  cases actor with
  | task id =>
    obtain ⟨l,hl,hnew⟩ := Task.write_eq_replaceReady h
    exact ⟨id,l,rfl,hl,hnew⟩
  | get call => cases h
  | cancel call => cases h

theorem write_eq_replaceBroken {p : Pool Channel} {actor : Actor} {i : Input Channel}
    {new : List DelayedAddress} (h : p.write actor i = .replaceBroken new) :
    ∃ id l, actor = .task id ∧ p.task id = .checkDns (.replaceBroken l) ∧ new = l.broken := by
  cases actor with
  | task id =>
    obtain ⟨l,hl,hnew⟩ := Task.write_eq_replaceBroken h
    exact ⟨id,l,rfl,hl,hnew⟩
  | get call => cases h
  | cancel call => cases h

theorem write_eq_add {p : Pool Channel} {actor : Actor} {i : Input Channel} {ip : IpAddr}
    {channel : Channel} (h : p.write actor i = .add ip channel) :
    ∃ id, actor = .task id ∧ p.task id = .recheck (.add ip channel) := by
  cases actor with
  | task id => exact ⟨id,rfl,Task.write_eq_add h⟩
  | get call => cases h
  | cancel call => cases h

theorem Move.lists {p p' : Pool Channel} {actor : Actor} {i : Input Channel}
    (h : Move p actor i p') :
    p'.lists.ready.channels = (p.write actor i).ready p.lists.ready.channels ∧
      p'.lists.broken.addresses = (p.write actor i).broken p.lists.broken.addresses := by
  cases h with
  | task hstep => exact Task.step_lists hstep
  | yield hget hsel =>
    simp [Pool.write,hget,Task.write,Pool.yield,Write.ready,Write.broken]
  | push hg => exact ⟨rfl,rfl⟩
  | call hready hbroken => exact ⟨hready,congrArg BrokenEndpoints.addresses hbroken⟩
  | cancel => exact ⟨rfl,rfl⟩

/-- The tasks that are dropped with the futures of a call. -/
def Drops (p : Pool Channel) : Actor → TaskId → Prop
  | .task (.future call number),.future call' number' =>
    (p.task (.future call number) = .getAny ∧ call' = call) ∧ number' ≠ number
  | .cancel call,.future call' _ => call' = call
  | _,_ => False

/-- A call is cancelled, or one of its futures completes. -/
def Dropping (p : Pool Channel) : Actor → Prop
  | .task (.future call number) =>
    match p.task (.future call number) with
    | .getAny => True
    | _ => False
  | .cancel _ => True
  | _ => False

instance (p : Pool Channel) (actor : Actor) : Decidable (p.Dropping actor) := by
  unfold Dropping
  split
  · split <;> infer_instance
  · infer_instance
  · infer_instance

theorem Drops.dropping {p : Pool Channel} {actor : Actor} {id : TaskId} (h : p.Drops actor id) :
    p.Dropping actor := by
  unfold Drops at h
  split at h
  · simp only [Dropping,h.1.1]
  · trivial
  · cases h

/-- A future moves only while its call selects. -/
def Orderly (p : Pool Channel) : Prop :=
  ∀ call number, (∀ n, p.get call ≠ .select n) → (p.task (.future call number)).Settled

/-- No operation is in flight: every call has ended or is yet to be made, `check_dns` is
between two ticks, and the doctor waits for an address. -/
def Quiescent (p : Pool Channel) : Prop :=
  (∀ id, (p.task id).Between id) ∧ ∀ call, (p.get call).Ended

theorem orderly_init : (Pool.init : Pool Channel).Orderly := fun _ _ _ => trivial

@[simp] theorem setFutures_self (call number : ℕ) (futures : ℕ → Task Channel)
    (task : TaskId → Task Channel) :
    setFutures call futures task (.future call number) = futures number := by simp [setFutures]

theorem setFutures_future {call call' : ℕ} (h : call ≠ call') (futures : ℕ → Task Channel)
    (task : TaskId → Task Channel) (number : ℕ) :
    setFutures call' futures task (.future call number) = task (.future call number) := by
  simp [setFutures,h]

theorem setFutures_of_ne {call : ℕ} (futures : ℕ → Task Channel) (task : TaskId → Task Channel)
    {id : TaskId} (h : ∀ number, id ≠ .future call number) :
    setFutures call futures task id = task id := by
  cases id with
  | future call' number =>
    have hne : call' ≠ call := by
      rintro rfl
      exact h number rfl
    exact setFutures_future hne futures task number
  | _ => rfl

theorem Move.orderly {p p' : Pool Channel} {actor : Actor} {i : Input Channel} (ho : p.Orderly)
    (h : Move p actor i p') : p'.Orderly := by
  intro call number hsel
  cases h with
  | @task id i r hstep =>
    have hset := ho call number hsel
    have hne : TaskId.future call number ≠ id := by
      rintro rfl
      exact Task.not_settled_of_step hstep hset
    simpa [Function.update_of_ne hne] using hset
  | @yield call' number' n i hget hn =>
    by_cases hc : call = call'
    · subst hc
      simp only [Pool.yield,setFutures_self]
      split <;> trivial
    · simp only [Pool.yield,Function.update_of_ne hc,setFutures_future hc] at hsel ⊢
      exact ho call number hsel
  | @push call' i hg =>
    by_cases hc : call = call'
    · subst hc
      exact absurd (Function.update_self ..) (hsel _)
    · simp only [Pool.push,Function.update_of_ne hc,setFutures_future hc] at hsel ⊢
      exact ho call number hsel
  | @call call' i g lists hready hbroken hs hp hg hrank =>
    by_cases hc : call = call'
    · subst hc
      exact ho call number hs
    · simp only [Function.update_of_ne hc] at hsel
      exact ho call number hsel
  | @cancel call' i =>
    by_cases hc : call = call'
    · subst hc
      simp [Pool.cancel,Task.Settled]
    · simp only [Pool.cancel,Function.update_of_ne hc,setFutures_future hc] at hsel ⊢
      exact ho call number hsel

theorem pushed_fresh (s : Lists Channel) (number : ℕ) :
    (pushed s.broken.addresses number : Task Channel).Fresh s := by
  cases number with
  | zero => trivial
  | succ number =>
    simp only [pushed]
    cases h : s.broken.addresses[number]? with
    | none => trivial
    | some entry => exact List.mem_of_getElem? h

/-- Where a task of the next state comes from. -/
theorem Move.task_cases {p p' : Pool Channel} {actor : Actor} {i : Input Channel}
    (h : Move p actor i p') (id : TaskId) :
    p'.task id = p.task id ∨ (p'.task id).Fresh p.lists ∨
      ∃ lists, actor = .task id ∧ (p.task id).step id p.lists i = some (lists,p'.task id) := by
  have hset (call : ℕ) (futures : ℕ → Task Channel) (hf : ∀ number, (futures number).Fresh p.lists) :
      setFutures call futures p.task id = p.task id ∨
        (setFutures call futures p.task id).Fresh p.lists := by
    by_cases hc : ∃ number, id = .future call number
    · obtain ⟨number,rfl⟩ := hc
      rw [setFutures_self]
      exact .inr (hf number)
    · exact .inl (setFutures_of_ne futures p.task (fun number hid => hc ⟨number,hid⟩))
  cases h with
  | @task id' i r hstep =>
    by_cases hid : id = id'
    · subst hid
      exact .inr (.inr ⟨r.1,rfl,by simpa using hstep⟩)
    · exact .inl (Function.update_of_ne hid ..)
  | @yield call number n i hget hsel =>
    have hf (j : ℕ) : (if j = number then Task.completed p.lists.ready.getAny.1 else .idle).Fresh
        p.lists := by
      split <;> trivial
    exact (hset call _ hf).imp_right .inl
  | @push call i hg => exact (hset call _ (pushed_fresh p.lists)).imp_right .inl
  | call => exact .inl rfl
  | @cancel call i => exact (hset call (fun _ => .idle) (fun _ => trivial)).imp_right .inl

/-- The step of a task is its own, unless it is a future that completes. -/
theorem Move.task_self {p p' : Pool Channel} {id : TaskId} {i : Input Channel}
    (h : Move p (.task id) i p') (hg : p.task id ≠ .getAny) :
    (p.task id).step id p.lists i = some (p'.lists,p'.task id) := by
  cases h with
  | task hstep => simpa using hstep
  | yield hget hsel => exact absurd hget hg

/-- The step of a report or of a background task is its own. -/
theorem Move.task_own {p p' : Pool Channel} {id : TaskId} {i : Input Channel}
    (h : Move p (.task id) i p') (hid : ∀ call number, id ≠ .future call number) :
    (p.task id).step id p.lists i = some (p'.lists,p'.task id) := by
  cases h with
  | task hstep => simpa using hstep
  | yield hget hsel => exact absurd rfl (hid _ _)

/-- A `check_dns` that goes on. -/
theorem Move.checkDns_next {p p' : Pool Channel} {id : TaskId} {i : Input Channel}
    {c c' : CheckDns Channel} (h : Move p (.task id) i p') (ht : p.task id = .checkDns c)
    (hc : (c.step p.lists i).2 = some c') :
    p'.lists = (c.step p.lists i).1 ∧ p'.task id = .checkDns c' := by
  have hnext := h.task_self (by simp [ht])
  simp only [ht,Task.step,hc,Option.map_some,Option.getD_some,Option.some.injEq,
    Prod.mk.injEq] at hnext
  exact ⟨hnext.1.symm,hnext.2.symm⟩

/-- A task that does not move and is not dropped stays as it is. -/
theorem Move.task_of_ne {p p' : Pool Channel} {actor : Actor} {i : Input Channel} {id : TaskId}
    (ho : p.Orderly) (h : Move p actor i p') (hs : ¬ (p.task id).Settled)
    (ha : actor ≠ .task id) (hd : ¬ p.Drops actor id) : p'.task id = p.task id := by
  cases h with
  | @task id' i r hstep => exact Function.update_of_ne (fun hid => ha (congrArg Actor.task hid.symm)) ..
  | @yield call number n i hget hsel =>
    apply setFutures_of_ne
    rintro number' rfl
    by_cases hn : number' = number
    · subst hn
      exact ha rfl
    · exact hd ⟨⟨hget,rfl⟩,hn⟩
  | @push call i hg =>
    apply setFutures_of_ne
    rintro number rfl
    exact hs (ho call number (by simp [hg]))
  | call => rfl
  | @cancel call i =>
    apply setFutures_of_ne
    rintro number rfl
    exact hd rfl

theorem Move.task_of_not_future {p p' : Pool Channel} {actor : Actor} {i : Input Channel}
    {id : TaskId} (h : Move p actor i p') (hid : ∀ call number, id ≠ .future call number)
    (ha : actor ≠ .task id) : p'.task id = p.task id := by
  cases h with
  | @task id' i r hstep => exact Function.update_of_ne (fun hid' => ha (congrArg Actor.task hid'.symm)) ..
  | @yield call number n i hget hsel => exact setFutures_of_ne _ _ (hid call)
  | @push call i hg => exact setFutures_of_ne _ _ (hid call)
  | call => rfl
  | @cancel call i => exact setFutures_of_ne _ _ (hid call)

/-- A task leaves the calls alone, but for the one that selects it. -/
theorem Move.get_of_task {p p' : Pool Channel} {id : TaskId} {i : Input Channel} {call : ℕ}
    (h : Move p (.task id) i p') (hs : ∀ n, p.get call ≠ .select n) : p'.get call = p.get call := by
  cases h with
  | task => rfl
  | @yield call' number n i hget hsel =>
    apply Function.update_of_ne
    rintro rfl
    exact hs n hsel

/-- A call moves with its own steps and those of its futures only. -/
theorem Move.get_of_not_serves {p p' : Pool Channel} {actor : Actor} {i : Input Channel} {call : ℕ}
    (h : Move p actor i p') (ha : ¬ actor.Serves call) (hc : actor ≠ .cancel call) :
    p'.get call = p.get call := by
  cases h with
  | task => rfl
  | @yield call' number n i hget hsel => exact Function.update_of_ne (fun h => ha h.symm) ..
  | @push call' i hg => exact Function.update_of_ne (fun h => ha h.symm) ..
  | @call call' i g lists => exact Function.update_of_ne (fun h => ha h.symm) ..
  | @cancel call' i =>
    apply Function.update_of_ne
    rintro rfl
    exact hc rfl

/-- A call leaves the ready list as it is, and never goes back. -/
theorem Move.get_progress {p p' : Pool Channel} {call : ℕ} {i : Input Channel}
    (h : Move p (.get call) i p') : p'.lists.ready.channels = p.lists.ready.channels ∧
      (p.get call).rank < (p'.get call).rank := by
  cases h with
  | push hg => simp [Pool.push,hg,GetChannel.rank]
  | call hready _ _ _ _ hrank => exact ⟨hready,by simpa using hrank⟩

/-- The rule for what holds of every `check_dns` at every point of it. -/
theorem Move.checkDns_rule {G : CheckDns Channel → Prop} {p p' : Pool Channel} {actor : Actor}
    {i : Input Channel} (h : Move p actor i p') (hresolve : G .resolve)
    (hstep : ∀ c c', G c → (c.step p.lists i).2 = some c' → G c')
    (hp : ∀ id c, p.task id = .checkDns c → G c) : ∀ id c, p'.task id = .checkDns c → G c := by
  intro id c hc
  rcases h.task_cases id with hsame | hfresh | ⟨lists,-,hown⟩
  · exact hp id c (hsame ▸ hc)
  · rw [hc] at hfresh
    cases c <;> simp only [Task.Fresh] at hfresh
    exact hresolve
  · rcases Task.step_eq_checkDns (hc ▸ hown) with ⟨b,hb,hnext⟩ | rfl
    · exact hstep b c (hp id b hb) hnext
    · exact hresolve

end Pool

namespace World

variable [DecidableEq π]

/-- What the actor of a label makes of the lock and of its pool. -/
def turn (w : World π Channel) (l : Label π Channel) : Option (RecheckLock π × Pool Channel) :=
  match l.actor with
  | .task id => ((w.pool l.pool).stepTask id l.input).map (fun p => (w.recheck,p))
  | .get call => (w.pool l.pool).stepGet w.recheck l.pool call l.input.now
  | .cancel call => (w.pool l.pool).stepCancel w.recheck l.pool call

theorem step_eq_some {w w' : World π Channel} {l : Label π Channel} :
    w.step l = some w' ↔ w.clock ≤ l.input.now ∧ ∃ r p, w.turn l = some (r,p) ∧
      w' = ⟨l.input.now,r,Function.update w.pool l.pool p⟩ := by
  have hlt : ¬ l.input.now < w.clock ↔ w.clock ≤ l.input.now := Nat.not_lt
  simp only [step,turn,Option.ite_none_left_eq_some,hlt]
  apply and_congr_right
  intro _
  cases l.actor <;> simp [eq_comm]

theorem turn_move {w : World π Channel} {l : Label π Channel} {r : RecheckLock π}
    {p : Pool Channel} (h : w.turn l = some (r,p)) :
    (w.pool l.pool).Move l.actor l.input p := by
  cases ha : l.actor with
  | task id =>
    simp only [turn,ha,Option.map_eq_some_iff] at h
    obtain ⟨p',hp,heq⟩ := h
    cases heq
    exact Pool.stepTask_move hp
  | get call =>
    simp only [turn,ha] at h
    exact Pool.stepGet_move h
  | cancel call =>
    simp only [turn,ha] at h
    exact Pool.stepCancel_move h

/-- A step is a move of one pool, at a clock that does not go back. -/
theorem step_move {w w' : World π Channel} {l : Label π Channel} (h : w.step l = some w') :
    w.clock ≤ l.input.now ∧ w'.clock = l.input.now ∧
      (w.pool l.pool).Move l.actor l.input (w'.pool l.pool) ∧
      ∀ q, q ≠ l.pool → w'.pool q = w.pool q := by
  obtain ⟨hclock,r,p,hturn,rfl⟩ := step_eq_some.mp h
  refine ⟨hclock,rfl,?_,fun q hq => Function.update_of_ne hq ..⟩
  simpa using turn_move hturn

theorem stepGet_of_step {w w' : World π Channel} {q : π} {call : ℕ} {i : Input Channel}
    (h : w.step ⟨q,.get call,i⟩ = some w') :
    (w.pool q).stepGet w.recheck q call i.now = some (w'.recheck,w'.pool q) := by
  obtain ⟨-,r,p,hturn,rfl⟩ := step_eq_some.mp h
  simpa [turn] using hturn

/-- A task does not touch the lock of the forced recheck. -/
theorem recheck_of_step {w w' : World π Channel} {q : π} {id : TaskId} {i : Input Channel}
    (h : w.step ⟨q,.task id,i⟩ = some w') : w'.recheck = w.recheck := by
  obtain ⟨-,r,p,hturn,rfl⟩ := step_eq_some.mp h
  obtain ⟨p',-,heq⟩ := Option.map_eq_some_iff.mp hturn
  cases heq
  rfl

/-- What every move of a pool keeps, every step keeps. -/
theorem pool_step {I : Pool Channel → Prop} {w w' : World π Channel} {l : Label π Channel} {q : π}
    (h : w.step l = some w') (hI : I (w.pool q))
    (hmove : l.pool = q → (w.pool q).Move l.actor l.input (w'.pool q) → I (w'.pool q)) :
    I (w'.pool q) := by
  obtain ⟨-,-,hm,hother⟩ := step_move h
  by_cases hq : q = l.pool
  · subst hq
    exact hmove rfl hm
  · rw [hother q hq]
    exact hI

/-- A call that does not select moves with its own steps only. -/
theorem get_of_not_owner {w w' : World π Channel} {l : Label π Channel} {c : π × ℕ}
    (h : w.step l = some w') (hl : ¬ l.Owner c) (hs : ∀ n, (w.pool c.1).get c.2 ≠ .select n) :
    (w'.pool c.1).get c.2 = (w.pool c.1).get c.2 := by
  obtain ⟨q,actor,i⟩ := l
  obtain ⟨-,-,hm,hother⟩ := step_move h
  by_cases hq : c.1 = q
  · subst hq
    cases actor with
    | task id => exact hm.get_of_task hs
    | get call =>
      have hne : call ≠ c.2 := fun hc => hl ⟨rfl,.inl (congrArg Actor.get hc)⟩
      exact hm.get_of_not_serves hne (by simp)
    | cancel call =>
      have hne : Actor.cancel call ≠ .cancel c.2 := fun hc => hl ⟨rfl,.inr hc⟩
      exact hm.get_of_not_serves id hne
  · rw [hother c.1 hq]

/-- Something holds of every pool. -/
def Every (I : Pool Channel → Prop) (w : World π Channel) : Prop := ∀ q, I (w.pool q)

theorem every_step {I : Pool Channel → Prop} {w w' : World π Channel} {l : Label π Channel}
    (h : w.step l = some w') (hI : Every I w)
    (hmove : (w.pool l.pool).Move l.actor l.input (w'.pool l.pool) → I (w'.pool l.pool)) :
    Every I w' := by
  intro q
  apply pool_step h (hI q)
  rintro rfl hm
  exact hmove hm

/-- What the step of a label writes, in the pool it names. -/
def write (w : World π Channel) (l : Label π Channel) : Write Channel :=
  (w.pool l.pool).write l.actor l.input

/-- What every move keeps holds of a pool after every run. -/
theorem run_pool {I : Pool Channel → Prop}
    (hmove : ∀ p actor i p', I p → p.Move actor i p' → I p') {w u : World π Channel}
    {ls : List (Label π Channel)} {q : π} (hI : I (w.pool q))
    (hr : Transition.run step w ls = some u) : I (u.pool q) := by
  have hstep (s : World π Channel) (l : Label π Channel) (t : World π Channel)
      (hs : I (s.pool q)) (_ : True) (h : step s l = some t) : I (t.pool q) :=
    pool_step h hs (fun _ hm => hmove _ _ _ _ hs hm)
  exact Transition.run_invariant (I := fun s => I (s.pool q)) hstep hI
    (Transition.along_of_forall (fun _ _ _ => trivial) w) hr

theorem clock_le_of_run {w u : World π Channel} {ls : List (Label π Channel)}
    (hr : Transition.run step w ls = some u) : w.clock ≤ u.clock := by
  have hstep (s : World π Channel) (l : Label π Channel) (t : World π Channel)
      (hs : w.clock ≤ s.clock) (_ : True) (h : step s l = some t) : w.clock ≤ t.clock := by
    obtain ⟨hle,hclock,-,-⟩ := step_move h
    exact hs.trans (hclock ▸ hle)
  exact Transition.run_invariant (I := fun s : World π Channel => w.clock ≤ s.clock) hstep (le_refl _)
    (Transition.along_of_forall (fun _ _ _ => trivial) w) hr

/-- A report or a background task that no label names stays as it is. -/
theorem run_task_of_not_future {w u : World π Channel} {ls : List (Label π Channel)} {id : TaskId}
    (hid : ∀ call number, id ≠ .future call number) (hls : ∀ l ∈ ls, l.actor ≠ .task id)
    (hr : Transition.run step w ls = some u) (q : π) : (u.pool q).task id = (w.pool q).task id := by
  have hstep (s : World π Channel) (l : Label π Channel) (t : World π Channel)
      (hs : (s.pool q).task id = (w.pool q).task id) (hl : l.actor ≠ .task id)
      (h : step s l = some t) : (t.pool q).task id = (w.pool q).task id := by
    apply pool_step (I := fun p => p.task id = (w.pool q).task id) h hs
    intro _ hm
    exact (hm.task_of_not_future hid hl).trans hs
  exact Transition.run_invariant (I := fun s => (s.pool q).task id = (w.pool q).task id) hstep rfl
    (Transition.along_of_forall (fun _ => hls) w) hr

end World
end SodaPool
