import Mathlib.Data.List.Flatten
import Mathlib.Data.List.Forall2
import Mathlib.Tactic.Common

/-!
# Traversals that can fail

A list of results comes from a list of inputs one by one.
-/

namespace SodaPool
namespace Traversal

open List

variable {α β ε : Type}

theorem bind_ok_iff {x : Except ε α} {f : α → Except ε β} {b : β} :
    (x >>= f) = .ok b ↔ ∃ a, x = .ok a ∧ f a = .ok b := by
  cases x <;> simp [bind,Except.bind]

/-- No other errors than these. -/
def Raises (P : ε → Prop) (x : Except ε α) : Prop := ∀ e, x = .error e → P e

theorem raises_ok (P : ε → Prop) (a : α) : Raises P (.ok a) := fun _ h => by cases h

theorem raises_error {P : ε → Prop} {e : ε} (h : P e) : Raises P (.error e : Except ε α) :=
  fun _ he => by cases he; exact h

theorem raises_bind {P : ε → Prop} {x : Except ε α} {f : α → Except ε β} (hx : Raises P x)
    (hf : ∀ a, Raises P (f a)) : Raises P (x >>= f) := by
  cases x with
  | error e => exact raises_error (hx e rfl)
  | ok a => exact hf a

theorem raises_mapM {P : ε → Prop} {f : α → Except ε β} (h : ∀ x, Raises P (f x)) (l : List α) :
    Raises P (l.mapM f) := by
  induction l with
  | nil => exact raises_ok P []
  | cons x l ih =>
    rw [mapM_cons]
    refine raises_bind (h x) (fun y => raises_bind ih (fun r => ?_))
    exact raises_ok P (y::r)

theorem mapM_ok_iff {f : α → Except ε β} {l : List α} {r : List β} :
    l.mapM f = .ok r ↔ Forall₂ (fun x y => f x = .ok y) l r := by
  induction l generalizing r with
  | nil => simp [pure,Except.pure,eq_comm]
  | cons x l ih =>
    simp only [mapM_cons,bind_ok_iff,ih,forall₂_cons_left_iff,pure,Except.pure,Except.ok.injEq]
    simp only [← exists_and_left,eq_comm (a := r)]

theorem mapM_some_iff {f : α → Option β} {l : List α} {r : List β} :
    l.mapM f = some r ↔ Forall₂ (fun x y => f x = some y) l r := by
  induction l generalizing r with
  | nil => simp [eq_comm]
  | cons x l ih =>
    simp only [mapM_cons,Option.bind_eq_bind,Option.bind_eq_some_iff,ih,forall₂_cons_left_iff,
      Option.pure_def,Option.some.injEq]
    simp only [← exists_and_left,eq_comm (a := r)]

theorem exists_of_forall₂ {R : α → β → Prop} {l : List α} {r : List β} (h : Forall₂ R l r) :
    ∀ y ∈ r, ∃ x ∈ l, R x y := by
  induction h with
  | nil => simp
  | @cons x y l r hxy _ ih =>
    intro z hz
    rcases mem_cons.mp hz with rfl | hz
    · exact ⟨x,mem_cons_self,hxy⟩
    · obtain ⟨w,hw,hwz⟩ := ih z hz
      exact ⟨w,mem_cons_of_mem x hw,hwz⟩

theorem exists_of_mapM_some {f : α → Option β} {l : List α} {r : List β} (h : l.mapM f = some r) :
    ∀ y ∈ r, ∃ x ∈ l, f x = some y :=
  exists_of_forall₂ (mapM_some_iff.mp h)

/-- What is found of an element is among what is found of the list. -/
theorem mem_of_mapM_some {f : α → Option β} {l : List α} {r : List β} (h : l.mapM f = some r)
    {x : α} (hx : x ∈ l) : ∃ y ∈ r, f x = some y :=
  exists_of_forall₂ (mapM_some_iff.mp h).flip x hx

theorem exists_of_mapM_ok {f : α → Except ε β} {l : List α} {r : List β} (h : l.mapM f = .ok r) :
    ∀ y ∈ r, ∃ x ∈ l, f x = .ok y :=
  exists_of_forall₂ (mapM_ok_iff.mp h)

theorem exists_mapM_some_iff {f : α → Option β} {l : List α} :
    (∃ r, l.mapM f = some r) ↔ ∀ x ∈ l, ∃ y, f x = some y := by
  induction l with
  | nil => simp
  | cons x l ih =>
    rw [forall_mem_cons,← ih]
    simp only [mapM_cons,Option.bind_eq_bind,Option.bind_eq_some_iff,Option.pure_def,
      Option.some.injEq]
    constructor
    · rintro ⟨_,y,hy,r,hr,-⟩
      exact ⟨⟨y,hy⟩,r,hr⟩
    · rintro ⟨⟨y,hy⟩,r,hr⟩
      exact ⟨y::r,y,hy,r,hr,rfl⟩

/-- What succeeds on every element, succeeds on the list. -/
theorem mapM_ok_of_forall {f : α → Except ε β} {g : α → β} {l : List α}
    (h : ∀ x ∈ l, f x = .ok (g x)) : l.mapM f = .ok (l.map g) := by
  rw [mapM_ok_iff,forall₂_map_right_iff,forall₂_same]
  exact h

/-- A traversal that tells its inputs apart tells lists of them apart. -/
theorem mapM_some_injective {f : α → Option β} (hf : ∀ x x' y, f x = some y → f x' = some y → x = x')
    {l l' : List α} {r : List β} (h : l.mapM f = some r) (h' : l'.mapM f = some r) : l = l' :=
  left_unique_forall₂' (fun x x' y hx hx' => hf x x' y hx hx') (mapM_some_iff.mp h)
    (mapM_some_iff.mp h')

/-- Blocks of one length can be read off the list of them. -/
theorem flatten_injective {n : ℕ} (hn : 0 < n) {L L' : List (List α)}
    (hL : ∀ l ∈ L, l.length = n) (hL' : ∀ l ∈ L', l.length = n) (h : L.flatten = L'.flatten) :
    L = L' := by
  have hlength {M : List (List α)} (hM : ∀ l ∈ M, l.length = n) :
      M.map List.length = replicate M.length n := by
    rw [eq_replicate_iff]
    exact ⟨length_map _,by simpa using hM⟩
  have hsum : L.length * n = L'.length * n := by
    have hflat := congrArg List.length h
    rwa [length_flatten,length_flatten,hlength hL,hlength hL',sum_replicate_nat,
      sum_replicate_nat] at hflat
  rw [eq_iff_flatten_eq]
  refine ⟨h,?_⟩
  rw [hlength hL,hlength hL',Nat.eq_of_mul_eq_mul_right hn hsum]

end Traversal
end SodaPool
