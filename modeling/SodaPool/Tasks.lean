import SodaPool.NextBroken
import SodaPool.ReadyChannels

/-!
# The tasks of a pool as state machines

An asynchronous function is a machine whose states are the points between its atomic
steps: a critical section of a lock, a look-up of the domain or the end of a
connection attempt. What the environment answers in a step is an `Input`. The arithmetic
is that of a release build, where the failure count wraps around.
-/

namespace SodaPool

open Containers

variable {Channel : Type}

/-- `ready_clients` and `broken_endpoints`, each behind a lock of its own. -/
structure Lists (Channel : Type) where
  ready : ReadyChannels Channel
  broken : BrokenEndpoints

/-- The clock, the answer of the resolver, the end of a connection attempt, which branch a
`select!` takes when its timer is up as well, and where an iteration over the heap goes on
from its root. -/
structure Input (Channel : Type) where
  now : ℕ
  answer : Option (List IpAddr) := none
  outcome : Option Channel := none
  timer : Bool := false
  order : ℕ := 0

/-- The locals of `check_dns`: the rest of the answer and the two new lists. -/
structure Locals (Channel : Type) where
  addresses : List IpAddr
  ready : List (IpAddr × Channel)
  broken : List DelayedAddress

/-- The addresses that are in one of the two new lists. -/
def Locals.filed (l : Locals Channel) : List IpAddr :=
  keys Prod.fst l.ready ++ keys DelayedAddress.address l.broken

inductive CheckDns (Channel : Type)
  | resolve
  | find (address : IpAddr) (l : Locals Channel)
  | getAddress (address : IpAddr) (l : Locals Channel)
  | connect (address : IpAddr) (l : Locals Channel)
  | replaceReady (l : Locals Channel)
  | replaceBroken (l : Locals Channel)

namespace CheckDns

/-- The head of the `for` loop. -/
def loop (l : Locals Channel) : CheckDns Channel :=
  match l.addresses with
  | [] => .replaceReady l
  | address::rest => .find address { l with addresses := rest }

/-- `none` is the end of the function. -/
def step (s : Lists Channel) (i : Input Channel) :
    CheckDns Channel → Lists Channel × Option (CheckDns Channel)
  | .resolve => (s,i.answer.map (fun addresses => loop ⟨addresses,[],[]⟩))
  | .find address l =>
    match s.ready.find address with
    | some channel => (s,some (loop { l with ready := l.ready ++ [(address,channel)] }))
    | none => (s,some (.getAddress address l))
  | .getAddress address l =>
    match s.broken.getAddress address i.order with
    | some entry => (s,some (loop { l with broken := l.broken ++ [entry] }))
    | none => (s,some (.connect address l))
  | .connect address l =>
    match i.outcome with
    | some channel => (s,some (loop { l with ready := l.ready ++ [(address,channel)] }))
    | none =>
      (s,some (loop { l with broken := l.broken ++ [DelayedAddress.ofAddress i.now address] }))
  | .replaceReady l => ({ s with ready := s.ready.replaceWith l.ready },some (.replaceBroken l))
  | .replaceBroken l => ({ s with broken := s.broken.replaceWith l.broken },none)

/-- What a `check_dns` does at each of its points. -/
inductive Goes (s : Lists Channel) (i : Input Channel) :
    CheckDns Channel → Lists Channel → Option (CheckDns Channel) → Prop
  | resolved {addresses : List IpAddr} : i.answer = some addresses →
      Goes s i .resolve s (some (loop ⟨addresses,[],[]⟩))
  | unresolved : i.answer = none → Goes s i .resolve s none
  | ready {address : IpAddr} {channel : Channel} {l : Locals Channel} :
      s.ready.find address = some channel → Goes s i (.find address l) s
        (some (loop { l with ready := l.ready ++ [(address,channel)] }))
  | notReady {address : IpAddr} {l : Locals Channel} : s.ready.find address = none →
      Goes s i (.find address l) s (some (.getAddress address l))
  | broken {address : IpAddr} {entry : DelayedAddress} {l : Locals Channel} :
      s.broken.getAddress address i.order = some entry → Goes s i (.getAddress address l) s
        (some (loop { l with broken := l.broken ++ [entry] }))
  | unknown {address : IpAddr} {l : Locals Channel} :
      s.broken.getAddress address i.order = none →
      Goes s i (.getAddress address l) s (some (.connect address l))
  | connected {address : IpAddr} {channel : Channel} {l : Locals Channel} :
      i.outcome = some channel → Goes s i (.connect address l) s
        (some (loop { l with ready := l.ready ++ [(address,channel)] }))
  | refused {address : IpAddr} {l : Locals Channel} : i.outcome = none →
      Goes s i (.connect address l) s
        (some (loop { l with broken := l.broken ++ [DelayedAddress.ofAddress i.now address] }))
  | replaceReady {l : Locals Channel} : Goes s i (.replaceReady l)
      { s with ready := s.ready.replaceWith l.ready } (some (.replaceBroken l))
  | replaceBroken {l : Locals Channel} : Goes s i (.replaceBroken l)
      { s with broken := s.broken.replaceWith l.broken } none

theorem goes_of_step {s s' : Lists Channel} {i : Input Channel} {c : CheckDns Channel}
    {o : Option (CheckDns Channel)} (h : c.step s i = (s',o)) : Goes s i c s' o := by
  cases c with
  | resolve =>
    cases ha : i.answer <;> simp only [step,ha] at h <;> cases h
    · exact .unresolved ha
    · exact .resolved ha
  | find address l =>
    cases hf : s.ready.find address <;> simp only [step,hf] at h <;> cases h
    · exact .notReady hf
    · exact .ready hf
  | getAddress address l =>
    cases hg : s.broken.getAddress address i.order <;> simp only [step,hg] at h <;> cases h
    · exact .unknown hg
    · exact .broken hg
  | connect address l =>
    cases ho : i.outcome <;> simp only [step,ho] at h <;> cases h
    · exact .refused ho
    · exact .connected ho
  | replaceReady l =>
    cases h
    exact .replaceReady
  | replaceBroken l =>
    cases h
    exact .replaceBroken

theorem Goes.step_eq {s s' : Lists Channel} {i : Input Channel} {c : CheckDns Channel}
    {o : Option (CheckDns Channel)} (h : Goes s i c s' o) : c.step s i = (s',o) := by
  cases h <;> simp [step, *]

theorem exists_goes {s : Lists Channel} {i : Input Channel} {c : CheckDns Channel}
    {o : Option (CheckDns Channel)} (h : (c.step s i).2 = o) : ∃ s', Goes s i c s' o :=
  ⟨_,goes_of_step (Prod.ext rfl h)⟩

/-- The addresses of the answer as they stand at a point: to be met, ready or broken. -/
def addresses : CheckDns Channel → List IpAddr
  | .resolve => []
  | .find address l | .getAddress address l | .connect address l =>
    address::l.addresses ++ l.filed
  | .replaceReady l | .replaceBroken l => l.filed

theorem loop_addresses (l : Locals Channel) : (loop l).addresses = l.addresses ++ l.filed := by
  obtain ⟨addresses,ready,broken⟩ := l
  cases addresses <;> rfl

/-- The loop meets every address of the answer once for each time it is listed. -/
theorem step_addresses {s : Lists Channel} {i : Input Channel} {c c' : CheckDns Channel}
    (h : (c.step s i).2 = some c') :
    c = .resolve ∧ i.answer = some c'.addresses ∨
      c ≠ .resolve ∧ c'.addresses.Perm c.addresses := by
  have hready (address : IpAddr) (channel : Channel) (l : Locals Channel) :
      (loop { l with ready := l.ready ++ [(address,channel)] }).addresses.Perm
        (address::l.addresses ++ l.filed) := by
    rw [loop_addresses]
    simp only [Locals.filed,keys,List.map_append,List.map_cons,List.map_nil]
    grind
  have hbroken (d : DelayedAddress) (l : Locals Channel) :
      (loop { l with broken := l.broken ++ [d] }).addresses.Perm
        (d.address::l.addresses ++ l.filed) := by
    rw [loop_addresses]
    simp only [Locals.filed,keys,List.map_append,List.map_cons,List.map_nil]
    grind
  obtain ⟨s',hgoes⟩ := exists_goes h
  cases hgoes with
  | resolved ha => exact .inl ⟨rfl,by rw [ha,loop_addresses]; simp [Locals.filed]⟩
  | ready | connected => exact .inr ⟨by simp,hready _ _ _⟩
  | broken hg =>
    obtain rfl := (BrokenEndpoints.getAddress_mem hg).2
    exact .inr ⟨by simp,hbroken _ _⟩
  | refused => exact .inr ⟨by simp,hbroken _ _⟩
  | notReady | unknown | replaceReady => exact .inr ⟨by simp,List.Perm.refl _⟩

theorem loop_ne_replaceBroken (l l' : Locals Channel) : loop l ≠ .replaceBroken l' := by
  obtain ⟨addresses,ready,broken⟩ := l
  cases addresses <;> simp [loop]

/-- The heap is replaced right after the ready list, from the same locals. -/
theorem eq_replaceReady_of_step {s : Lists Channel} {i : Input Channel} {c : CheckDns Channel}
    {l : Locals Channel} (h : (c.step s i).2 = some (.replaceBroken l)) : c = .replaceReady l := by
  have hloop (l l' : Locals Channel) : loop l ≠ .replaceBroken l' := loop_ne_replaceBroken l l'
  cases c with
  | resolve =>
    obtain ⟨answer,-,ha⟩ := Option.map_eq_some_iff.mp h
    exact absurd ha (hloop _ l)
  | find address l' =>
    simp only [step] at h
    cases hf : s.ready.find address <;> simp_all
  | getAddress address l' =>
    simp only [step] at h
    cases hg : s.broken.getAddress address i.order <;> simp_all
  | connect address l' =>
    simp only [step] at h
    cases ho : i.outcome <;> simp_all
  | replaceReady l' =>
    simp only [step,Option.some.injEq,replaceBroken.injEq] at h
    exact congrArg replaceReady h
  | replaceBroken l' => cases h

/-- Only the look-up of the domain and the last replacement can end a `check_dns`. -/
theorem exists_step {c : CheckDns Channel} (hr : c ≠ .resolve) (hb : ∀ l, c ≠ .replaceBroken l)
    (s : Lists Channel) (i : Input Channel) : ∃ c', (c.step s i).2 = some c' := by
  cases c with
  | resolve => exact absurd rfl hr
  | find address l =>
    simp only [step]
    cases s.ready.find address <;> exact ⟨_,rfl⟩
  | getAddress address l =>
    simp only [step]
    cases s.broken.getAddress address i.order <;> exact ⟨_,rfl⟩
  | connect address l =>
    simp only [step]
    cases i.outcome <;> exact ⟨_,rfl⟩
  | replaceReady l => exact ⟨_,rfl⟩
  | replaceBroken l => exact absurd rfl (hb l)

end CheckDns

/-- `recheck_broken_endpoint`. -/
inductive Recheck (Channel : Type)
  | connect (address : DelayedAddress)
  | add (ip : IpAddr) (channel : Channel)
  | insert (entry : DelayedAddress)

namespace Recheck

/-- The entry `re_add_address` makes: one failure more. -/
def reAdded (now : ℕ) (d : DelayedAddress) : DelayedAddress :=
  ⟨BackoffTracker.fromFailedTimes now (d.failedTimes+1),d.address⟩

def step (s : Lists Channel) (i : Input Channel) :
    Recheck Channel → Lists Channel × Option (Recheck Channel)
  | .connect address =>
    match i.outcome with
    | some channel => (s,some (.add address.address channel))
    | none => (s,some (.insert (reAdded i.now address)))
  | .add ip channel => ({ s with ready := s.ready.add ip channel },none)
  | .insert entry => ({ s with broken := s.broken.insert entry },none)

end Recheck

/-- `report_broken`; the entry of `add_address` is made before the mutex is taken. -/
inductive Report
  | remove (ip : IpAddr)
  | insert (entry : DelayedAddress)

namespace Report

def step (s : Lists Channel) (i : Input Channel) : Report → Lists Channel × Option Report
  | .remove ip =>
    ({ s with ready := s.ready.remove ip },some (.insert (DelayedAddress.ofAddress i.now ip)))
  | .insert entry => ({ s with broken := s.broken.insert entry },none)

end Report

/-- The tasks of a pool: its two background tasks, the calls of `report_broken`, and the
futures that the calls of `get_channel` push. -/
inductive TaskId
  | dns
  | doctor
  | report (call : ℕ) (ip : IpAddr)
  | future (call : ℕ) (number : ℕ)
  deriving DecidableEq

/-- Where a task stands. An idle task has ended, was dropped or is yet to be pushed. -/
inductive Task (Channel : Type)
  | idle
  | checkDns (c : CheckDns Channel)
  | recheck (r : Recheck Channel)
  | report (r : Report)
  | nextBroken (n : NextBroken)
  | getAny
  | completed (out : Option (IpAddr × Channel))

namespace Task

/-- What a task goes on to after its `check_dns`, `recheck_broken_endpoint` or
`report_broken` has ended. The task of the DNS look-up awaits its tick before the next
step, for any time. -/
def resume : TaskId → Task Channel
  | .dns => .checkDns .resolve
  | .doctor => .nextBroken .lock
  | .report _ _ => .idle
  | .future _ _ => .getAny

/-- One step of a task on its own; the `get_any` of a future is a step of its call. -/
def step (id : TaskId) (s : Lists Channel) (i : Input Channel) :
    Task Channel → Option (Lists Channel × Task Channel)
  | .checkDns c => some ((c.step s i).1,((c.step s i).2.map .checkDns).getD (resume id))
  | .recheck r => some ((r.step s i).1,((r.step s i).2.map .recheck).getD (resume id))
  | .report r => some ((r.step s i).1,((r.step s i).2.map .report).getD (resume id))
  | .nextBroken n => (n.step s.broken i.now i.timer).map (fun r =>
      ({ s with broken := r.1 },match r.2 with
        | .inl entry => .recheck (.connect entry)
        | .inr n => .nextBroken n))
  | _ => none

end Task
end SodaPool
