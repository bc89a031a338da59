import Mathlib.Algebra.Order.Group.Nat
import Mathlib.Tactic.Common

/-!
# A destructor behind a reference count

The count goes up with every copy and down with every drop, and the destructor runs when it
comes to nothing.
-/

namespace SodaPool

/-- How many point at a value, and on record how often its destructor has run. -/
structure Arc where
  refs : ℕ
  dropped : ℕ
  deriving DecidableEq

namespace Arc

def new : Arc := ⟨1,0⟩

def clone (a : Arc) : Arc := { a with refs := a.refs+1 }

def drop (a : Arc) : Arc :=
  if a.refs = 1 then ⟨0,a.dropped+1⟩ else { a with refs := a.refs-1 }

/-- There are `n` that hold the value, and it is gone when there are none. -/
structure Held (a : Arc) (n : ℕ) : Prop where
  refs : a.refs = n
  dropped : a.dropped = if n = 0 then 1 else 0

theorem held_new : new.Held 1 := ⟨rfl,rfl⟩

/-- Only who holds the value can copy it. -/
theorem Held.clone {a : Arc} {n : ℕ} (h : a.Held n) (hn : 0 < n) : a.clone.Held (n+1) := by
  refine ⟨congrArg (· + 1) h.refs,?_⟩
  rw [if_neg (Nat.succ_ne_zero n)]
  exact h.dropped.trans (if_neg (Nat.pos_iff_ne_zero.mp hn))

theorem Held.drop {a : Arc} {n : ℕ} (h : a.Held (n+1)) : a.drop.Held n := by
  have hdropped : a.dropped = 0 := h.dropped.trans (if_neg (Nat.succ_ne_zero n))
  by_cases hn : n = 0
  · subst hn
    rw [Arc.drop,if_pos h.refs]
    exact ⟨rfl,by rw [hdropped]; rfl⟩
  · have hrefs : a.refs ≠ 1 := by
      rw [h.refs]
      omega
    rw [Arc.drop,if_neg hrefs]
    refine ⟨by simp [h.refs],?_⟩
    rw [if_neg hn]
    exact hdropped

end Arc
end SodaPool
