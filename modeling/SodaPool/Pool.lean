import Mathlib.Logic.Function.Basic
import SodaPool.FairLock
import SodaPool.Tasks
import SodaPool.Transition

/-!
# Pools and the lock of the forced recheck

`get_channel` runs under a lock that is a static of the function: one lock, with the
time of the last forced recheck in it, for every pool of the process. A world is that
lock and any number of pools. A step names a pool and the task or the call of
`get_channel` that takes it; everything else stays where it is.
-/

namespace SodaPool

open Containers FairLock

variable {π Channel : Type}

/-- The program points of `get_channel`. A call whose future its caller drops is cancelled. -/
inductive GetChannel (Channel : Type)
  | start
  | tryRead
  | ageTest
  | dropRead
  | requestWrite
  | awaitWrite
  | getAnyLocked
  | stamp
  | snapshot
  | select (entries : ℕ)
  | release (out : Option (IpAddr × Channel))
  | requestWait
  | awaitWait
  | releaseWait
  | getAnyLast
  | cancelled
  | done (out : Option (IpAddr × Channel))

structure Pool (Channel : Type) where
  lists : Lists Channel
  task : TaskId → Task Channel
  get : ℕ → GetChannel Channel

/-- A timestamp update: the call that makes it, the clock at it, and whether the futures of the
forced recheck that it begins have been pushed. -/
structure Stamp (π : Type) where
  caller : π × ℕ
  time : ℕ
  pushed : Bool
  deriving DecidableEq

/-- The futures of a call are pushed. -/
def Stamp.push [DecidableEq π] (caller : π × ℕ) (s : Stamp π) : Stamp π :=
  if s.caller = caller then { s with pushed := true } else s

/-- `RECHECK_BROKEN_ENDPOINTS`. On record are the timestamp updates, the last one first, and
the timestamp that the age test of each call has read. -/
structure RecheckLock (π : Type) where
  lock : RwLock (π × ℕ)
  last : DateTime
  stamps : List (Stamp π)
  tested : π × ℕ → DateTime

/-- The forced rechecks, each from its timestamp update on. A call that is cancelled after the
update and before the push makes none. -/
def RecheckLock.starts (r : RecheckLock π) : List (Stamp π) := r.stamps.filter (·.pushed)

/-- The timestamp in the lock, by the record. -/
def lastStamp : List (Stamp π) → DateTime
  | [] => DateTime.minUtc
  | s::_ => .utc s.time

@[simp] theorem Stamp.push_caller [DecidableEq π] (caller : π × ℕ) (s : Stamp π) :
    (s.push caller).caller = s.caller := by
  unfold Stamp.push
  split <;> rfl

@[simp] theorem Stamp.push_time [DecidableEq π] (caller : π × ℕ) (s : Stamp π) :
    (s.push caller).time = s.time := by
  unfold Stamp.push
  split <;> rfl

/-- The push makes no difference to the timestamp. -/
@[simp] theorem lastStamp_push [DecidableEq π] (caller : π × ℕ) (stamps : List (Stamp π)) :
    lastStamp (stamps.map (Stamp.push caller)) = lastStamp stamps := by
  cases stamps with
  | nil => rfl
  | cons s stamps => simp [lastStamp]

structure World (π Channel : Type) where
  clock : ℕ
  recheck : RecheckLock π
  pool : π → Pool Channel

inductive Actor
  | task (id : TaskId)
  | get (call : ℕ)
  | cancel (call : ℕ)
  deriving DecidableEq

structure Label (π Channel : Type) where
  pool : π
  actor : Actor
  input : Input Channel

/-- What a call has returned. -/
def GetChannel.result : GetChannel Channel → Option (Option (IpAddr × Channel))
  | .done out => some out
  | _ => none

namespace Label

/-- A step to which the environment says nothing but the time. -/
def quiet (q : π) (actor : Actor) (now : ℕ) : Label π Channel := ⟨q,actor,{ now := now }⟩

/-- The domain resolves to an answer. -/
def answered (q : π) (id : TaskId) (now : ℕ) (answer : List IpAddr) : Label π Channel :=
  ⟨q,.task id,{ now := now, answer := some answer }⟩

/-- A connection attempt succeeds. -/
def connected (q : π) (id : TaskId) (now : ℕ) (channel : Channel) : Label π Channel :=
  ⟨q,.task id,{ now := now, outcome := some channel }⟩

end Label

/-- `MIN_INTERVAL`, in nanoseconds. -/
def minInterval : ℤ := 500000000

/-- The age test lets a forced recheck through. -/
def recheckDue (last : DateTime) (now : ℕ) : Prop :=
  ¬ (DateTime.utc now).signedDurationSince last < minInterval

instance (last : DateTime) (now : ℕ) : Decidable (recheckDue last now) :=
  inferInstanceAs (Decidable (¬ _))

namespace Pool

def setGet (p : Pool Channel) (call : ℕ) (g : GetChannel Channel) : Pool Channel :=
  { p with get := Function.update p.get call g }

/-- Take `get_any`; what follows depends on its answer. -/
def getAny (p : Pool Channel) (call : ℕ) (next : Option (IpAddr × Channel) → GetChannel Channel) :
    Pool Channel :=
  { p with
    lists := { p.lists with ready := p.lists.ready.getAny.2 }
    get := Function.update p.get call (next p.lists.ready.getAny.1) }

/-- The futures of a forced recheck: `check_dns` and one recheck for each broken entry. -/
def pushed (entries : List DelayedAddress) : ℕ → Task Channel
  | 0 => .checkDns .resolve
  | number+1 =>
    match entries[number]? with
    | some entry => .recheck (.connect entry)
    | none => .idle

/-- Replace the futures of a call. -/
def setFutures (call : ℕ) (futures : ℕ → Task Channel) (task : TaskId → Task Channel) :
    TaskId → Task Channel
  | .future call' number => if call' = call then futures number else task (.future call' number)
  | id => task id

/-- The snapshot of `addresses`, and the push of all the futures. -/
def push (p : Pool Channel) (call : ℕ) : Pool Channel :=
  { p with
    task := setFutures call (pushed p.lists.broken.addresses) p.task
    get := Function.update p.get call (.select p.lists.broken.addresses.length) }

/-- `select_next_some` yields the future that has just completed; with the set, all the
others are dropped. -/
def yield (p : Pool Channel) (call number : ℕ) : Pool Channel where
  lists := { p.lists with ready := p.lists.ready.getAny.2 }
  task := setFutures call
    (fun j => if j = number then .completed p.lists.ready.getAny.1 else .idle) p.task
  get := Function.update p.get call (.release p.lists.ready.getAny.1)

def cancel (p : Pool Channel) (call : ℕ) : Pool Channel :=
  { p with
    task := setFutures call (fun _ => .idle) p.task
    get := Function.update p.get call .cancelled }

/-- A step of a task. A future that has reached its `get_any` completes in its call. -/
def stepTask (p : Pool Channel) (id : TaskId) (i : Input Channel) : Option (Pool Channel) :=
  match id,p.task id with
  | .future call number,.getAny =>
    match p.get call with
    | .select _ => some (p.yield call number)
    | _ => none
  | id,t => (t.step id p.lists i).map (fun r =>
      { p with lists := r.1, task := Function.update p.task id r.2 })

/-- A step of a call of `get_channel`; while it selects, its futures move. -/
def stepGet [DecidableEq π] (p : Pool Channel) (r : RecheckLock π) (me : π) (call now : ℕ) :
    Option (RecheckLock π × Pool Channel) :=
  match p.get call with
  | .start => some (r,p.getAny call (fun out => if out.isSome then .done out else .tryRead))
  | .tryRead =>
    match r.lock.tryRead (me,call) with
    | some lock => some ({ r with lock := lock },p.setGet call .ageTest)
    | none => some (r,p.setGet call .requestWait)
  | .ageTest =>
    if recheckDue r.last now then
      some ({ r with tested := Function.update r.tested (me,call) r.last },p.setGet call .dropRead)
    else some ({ r with lock := r.lock.releaseRead (me,call) },p.setGet call (.done none))
  | .dropRead =>
    some ({ r with lock := r.lock.releaseRead (me,call) },p.setGet call .requestWrite)
  | .requestWrite =>
    some ({ r with lock := r.lock.request (me,call) },p.setGet call .awaitWrite)
  | .awaitWrite => (r.lock.acquire (me,call)).map (fun lock =>
      ({ r with lock := lock },p.setGet call .getAnyLocked))
  | .getAnyLocked =>
    some (r,p.getAny call (fun out => if out.isSome then .release out else .stamp))
  | .stamp =>
    some ({ r with last := DateTime.utc now, stamps := ⟨(me,call),now,false⟩::r.stamps },
      p.setGet call .snapshot)
  | .snapshot => some ({ r with stamps := r.stamps.map (Stamp.push (me,call)) },p.push call)
  | .select _ => none
  | .release out =>
    some ({ r with lock := r.lock.releaseWrite (me,call) },p.setGet call (.done out))
  | .requestWait =>
    some ({ r with lock := r.lock.request (me,call) },p.setGet call .awaitWait)
  | .awaitWait => (r.lock.acquire (me,call)).map (fun lock =>
      ({ r with lock := lock },p.setGet call .releaseWait))
  | .releaseWait =>
    some ({ r with lock := r.lock.releaseWrite (me,call) },p.setGet call .getAnyLast)
  | .getAnyLast => some (r,p.getAny call .done)
  | .cancelled => none
  | .done _ => none

/-- The caller drops the future of `get_channel` at one of its awaits; the guard, the place in
the queue and the futures go with it. -/
def stepCancel [DecidableEq π] (p : Pool Channel) (r : RecheckLock π) (me : π) (call : ℕ) :
    Option (RecheckLock π × Pool Channel) :=
  let gone := ({ r with lock := r.lock.forget (me,call) },p.cancel call)
  match p.get call with
  | .awaitWrite | .getAnyLocked | .snapshot | .select _ | .awaitWait | .getAnyLast => some gone
  | _ => none

/-- A pool as it is built: empty lists, both background tasks at their start, no call made. -/
def init : Pool Channel where
  lists := ⟨ReadyChannels.empty,BrokenEndpoints.empty⟩
  task
    | .dns => .checkDns .resolve
    | .doctor => .nextBroken .lock
    | .report _ ip => .report (.remove ip)
    | .future _ _ => .idle
  get _ := .start

end Pool

namespace World

variable [DecidableEq π]

def init : World π Channel where
  clock := 0
  recheck := ⟨RwLock.free,DateTime.minUtc,[],fun _ => DateTime.minUtc⟩
  pool _ := Pool.init

/-- One step; the clock never goes back. -/
def step (w : World π Channel) (l : Label π Channel) : Option (World π Channel) :=
  if l.input.now < w.clock then none
  else
    match l.actor with
    | .task id => ((w.pool l.pool).stepTask id l.input).map (fun p =>
        { w with clock := l.input.now, pool := Function.update w.pool l.pool p })
    | .get call => ((w.pool l.pool).stepGet w.recheck l.pool call l.input.now).map (fun r =>
        ⟨l.input.now,r.1,Function.update w.pool l.pool r.2⟩)
    | .cancel call => ((w.pool l.pool).stepCancel w.recheck l.pool call).map (fun r =>
        ⟨l.input.now,r.1,Function.update w.pool l.pool r.2⟩)

end World
end SodaPool
