import Mathlib.Tactic.Common

/-!
# A notifier with one waiting task

`notify_one` wakes the task that waits; when none does, it leaves one permit for the next
that comes. The waiting task polls: it takes a permit or parks, and once it is woken its
next poll is ready. A waiter that is dropped after it was woken passes its permit on.
-/

namespace SodaPool

inductive Waiter
  | absent
  | waiting
  | notified
  deriving DecidableEq

structure Notify where
  permit : Bool
  waiter : Waiter
  deriving DecidableEq

namespace Notify

def new : Notify := ⟨false,.absent⟩

/-- A permit waits for the next one to come. -/
def stored : Notify := ⟨true,.absent⟩

def notifyOne (n : Notify) : Notify :=
  match n.waiter with
  | .waiting => { n with waiter := .notified }
  | .absent | .notified => { n with permit := true }

/-- A poll tells whether the wait is over; a waiter that is parked has to be woken first. -/
def poll (n : Notify) : Option (Bool × Notify) :=
  match n.waiter with
  | .notified => some (true,{ n with waiter := .absent })
  | .absent => if n.permit then some (true,new) else some (false,{ n with waiter := .waiting })
  | .waiting => none

def drop (n : Notify) : Notify :=
  match n.waiter with
  | .notified => stored
  | .waiting | .absent => { n with waiter := .absent }

/-- No notification is stored or pending. -/
def Silent (n : Notify) : Prop := n.permit = false ∧ n.waiter ≠ .notified

@[simp] theorem not_silent_notifyOne (n : Notify) : ¬ n.notifyOne.Silent := by
  obtain ⟨permit,waiter⟩ := n
  cases waiter <;> simp [notifyOne,Silent]

/-- Nobody is woken who does not wait. -/
theorem notifyOne_waiter_of_absent {n : Notify} (h : n.waiter = .absent) :
    n.notifyOne.waiter = .absent := by
  simp [notifyOne,h]

theorem poll_eq_some {n n' : Notify} {ready : Bool} (h : n.poll = some (ready,n')) :
    ready = true ∧ n'.waiter = .absent ∨
      ready = false ∧ n.Silent ∧ n'.Silent ∧ n'.waiter = .waiting := by
  obtain ⟨permit,waiter⟩ := n
  cases waiter with
  | absent =>
    cases permit <;> cases h
    · exact .inr ⟨rfl,⟨rfl,by simp⟩,⟨rfl,by simp⟩,rfl⟩
    · exact .inl ⟨rfl,rfl⟩
  | waiting => cases h
  | notified =>
    cases h
    exact .inl ⟨rfl,rfl⟩

@[simp] theorem drop_waiter (n : Notify) : n.drop.waiter = .absent := by
  obtain ⟨permit,waiter⟩ := n
  cases waiter <;> rfl

end Notify
end SodaPool
