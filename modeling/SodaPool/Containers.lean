import Mathlib.Data.List.Basic
import Mathlib.Data.List.Nodup
import Mathlib.Data.List.Perm.Basic
import Mathlib.Logic.Function.Basic
import Mathlib.Order.MinMax
import Mathlib.Order.Lattice
import Mathlib.Tactic.Common

/-!
# Vectors of keyed entries and binary heaps

A vector holds entries with a key; nothing in it forces the keys to differ, so
uniqueness of keys is a predicate. Removal fills the hole with the last entry. A
binary heap is the list of its elements: what is documented of it is that `pop`
gives a greatest element, and that iteration visits every element. A record that is written
field by field is a function of its fields.
-/

namespace SodaPool
namespace Containers

section Keyed

variable {α κ : Type*} (key : α → κ)

abbrev keys (l : List α) : List κ := l.map key

/-- No two entries share a key. -/
def Unique (l : List α) : Prop := (keys key l).Nodup

theorem unique_append_singleton {l : List α} {x : α} :
    Unique key (l ++ [x]) ↔ Unique key l ∧ key x ∉ keys key l := by
  simp [Unique,List.nodup_append]

variable {key} in
theorem Unique.sublist {l l' : List α} (h : Unique key l) (hs : l'.Sublist l) :
    Unique key l' :=
  List.Nodup.sublist (hs.map key) h

variable [DecidableEq κ]

/-- The last entry takes the place of the removed one. -/
def swapRemove (l : List α) (i : ℕ) : List α :=
  match l.getLast? with
  | none => []
  | some x => (l.set i x).dropLast

/-- Find the first entry with the key and remove it by swapping. -/
def removeFirst (k : κ) (l : List α) : List α :=
  match l.findIdx? (fun x => decide (key x = k)) with
  | some i => swapRemove l i
  | none => l

/-- Drop all entries with the key of `x`, then append `x`. -/
def putLast (x : α) (l : List α) : List α := l.filter (fun y => decide (key y ≠ key x)) ++ [x]

theorem swapRemove_perm {l : List α} {i : ℕ} (hi : i < l.length) :
    (swapRemove l i).Perm (l.eraseIdx i) := by
  obtain ⟨xs,x,rfl⟩ := l.eq_nil_or_concat.resolve_left (by rintro rfl; simp at hi)
  simp only [List.concat_eq_append,List.length_append,List.length_singleton] at hi ⊢
  simp only [swapRemove,List.getLast?_concat]
  rcases Nat.lt_or_ge i xs.length with h | h
  · rw [List.set_append_left _ _ h,List.dropLast_concat,List.eraseIdx_append_of_lt_length h]
    exact (List.set_perm_cons_eraseIdx h x).trans (List.perm_append_singleton x _).symm
  · have hlast : i = xs.length := by omega
    subst hlast
    simp [List.eraseIdx_append_of_length_le]

/-- Up to order, removal is erasure of the first entry with the key. -/
theorem removeFirst_perm (k : κ) (l : List α) :
    (removeFirst key k l).Perm (l.eraseP (fun x => decide (key x = k))) := by
  rw [List.eraseP_eq_eraseIdx,removeFirst]
  cases h : l.findIdx? (fun x => decide (key x = k)) with
  | none => exact List.Perm.refl _
  | some i => exact swapRemove_perm (List.findIdx?_eq_some_iff_getElem.mp h).1

theorem mem_of_mem_removeFirst {k : κ} {l : List α} {x : α} (h : x ∈ removeFirst key k l) :
    x ∈ l :=
  List.mem_of_mem_eraseP ((removeFirst_perm key k l).mem_iff.mp h)

theorem keys_removeFirst_subset (k : κ) (l : List α) :
    keys key (removeFirst key k l) ⊆ keys key l :=
  List.map_subset key fun _ => mem_of_mem_removeFirst key

/-- Entries under other keys are left alone, up to order. -/
theorem filter_removeFirst_perm (k : κ) (l : List α) :
    ((removeFirst key k l).filter (fun x => decide (key x ≠ k))).Perm
      (l.filter (fun x => decide (key x ≠ k))) := by
  refine ((removeFirst_perm key k l).filter _).trans (List.Perm.of_eq ?_)
  induction l with
  | nil => rfl
  | cons x l ih =>
    by_cases h : key x = k
    · simp [h]
    · simpa [h] using ih

theorem mem_removeFirst_of_ne {k : κ} {l : List α} {x : α} (hx : x ∈ l) (hk : key x ≠ k) :
    x ∈ removeFirst key k l := by
  have h : x ∈ (removeFirst key k l).filter (fun x => decide (key x ≠ k)) :=
    (filter_removeFirst_perm key k l).mem_iff.mpr (by simp [hx,hk])
  exact (List.mem_filter.mp h).1

theorem mem_keys_removeFirst_of_ne {k a : κ} {l : List α} (h : a ∈ keys key l) (hk : a ≠ k) :
    a ∈ keys key (removeFirst key k l) := by
  obtain ⟨x,hx,rfl⟩ := List.mem_map.mp h
  exact List.mem_map.mpr ⟨x,mem_removeFirst_of_ne key hx hk,rfl⟩

/-- One removal takes away one of the entries with the key. -/
theorem count_keys_removeFirst (k : κ) (l : List α) :
    (keys key (removeFirst key k l)).count k = (keys key l).count k - 1 := by
  rw [((removeFirst_perm key k l).map key).count_eq]
  induction l with
  | nil => rfl
  | cons x l ih => by_cases h : key x = k <;> simp [h,ih]

/-- A key that is held is taken away once. -/
theorem cons_keys_removeFirst_perm {k : κ} {l : List α} (h : k ∈ keys key l) :
    (k::keys key (removeFirst key k l)).Perm (keys key l) := by
  have herase : (keys key l).erase k = keys key (l.eraseP (fun x => decide (key x = k))) := by
    rw [List.erase_eq_eraseP',keys,List.eraseP_map]
    rfl
  have hremove : (keys key (removeFirst key k l)).Perm ((keys key l).erase k) := by
    rw [herase]
    exact (removeFirst_perm key k l).map key
  exact (hremove.cons k).trans (List.perm_cons_erase h).symm

/-- The key is gone exactly when it was held at most once. -/
theorem not_mem_keys_removeFirst_iff (k : κ) (l : List α) :
    k ∉ keys key (removeFirst key k l) ↔ (keys key l).count k ≤ 1 := by
  rw [← List.count_eq_zero,count_keys_removeFirst]
  omega

variable {key} in
theorem Unique.removeFirst {l : List α} (h : Unique key l) (k : κ) :
    Unique key (removeFirst key k l) := by
  have hs : Unique key (l.eraseP (fun x => decide (key x = k))) := h.sublist List.eraseP_sublist
  exact ((removeFirst_perm key k l).map key).nodup_iff.mpr hs

theorem mem_putLast {x y : α} {l : List α} :
    y ∈ putLast key x l ↔ (y ∈ l ∧ key y ≠ key x) ∨ y = x := by
  simp [putLast]

theorem mem_keys_putLast {x : α} {k : κ} {l : List α} :
    k ∈ keys key (putLast key x l) ↔ k ∈ keys key l ∨ k = key x := by
  simp only [List.mem_map,mem_putLast]
  constructor
  · rintro ⟨y,⟨hy,-⟩ | rfl,rfl⟩
    · exact .inl ⟨y,hy,rfl⟩
    · exact .inr rfl
  · rintro (⟨y,hy,rfl⟩ | rfl)
    · by_cases h : key y = key x
      · exact ⟨x,.inr rfl,h.symm⟩
      · exact ⟨y,.inl ⟨hy,h⟩,rfl⟩
    · exact ⟨x,.inr rfl,rfl⟩

theorem mem_keys_putLast_self (x : α) (l : List α) : key x ∈ keys key (putLast key x l) :=
  (mem_keys_putLast key).mpr (.inr rfl)

theorem filter_eq_putLast (x : α) (l : List α) :
    (putLast key x l).filter (fun y => decide (key y = key x)) = [x] := by
  simp [putLast,List.filter_filter]

theorem filter_ne_putLast (x : α) (l : List α) :
    (putLast key x l).filter (fun y => decide (key y ≠ key x)) =
      l.filter (fun y => decide (key y ≠ key x)) := by
  simp [putLast,List.filter_filter]

theorem Unique.putLast {key : α → κ} {l : List α} (h : Unique key l) (x : α) :
    Unique key (putLast key x l) := by
  refine (unique_append_singleton key).mpr ⟨h.sublist List.filter_sublist,?_⟩
  simp [keys]

end Keyed

section Heap

variable {α : Type*} [DecidableEq α] [LinearOrder α]

/-- Take a greatest element out of a heap. -/
def pop (h : List α) : Option (α × List α) := h.max?.map (fun m => (m,h.erase m))

@[simp] theorem pop_eq_none {h : List α} : pop h = none ↔ h = [] := by simp [pop]

theorem pop_eq_some {h h' : List α} {m : α} :
    pop h = some (m,h') ↔ (m ∈ h ∧ ∀ x ∈ h, x ≤ m) ∧ h' = h.erase m := by
  simp only [pop,Option.map_eq_some_iff,Prod.mk.injEq]
  constructor
  · rintro ⟨x,hx,rfl,rfl⟩
    exact ⟨List.max?_eq_some_iff.mp hx,rfl⟩
  · rintro ⟨hm,rfl⟩
    exact ⟨m,List.max?_eq_some_iff.mpr hm,rfl,rfl⟩

end Heap

section Fields

variable {α κ β : Type*} [DecidableEq κ] (key : α → κ) (value : α → β)

/-- Write the values of a list to their fields, one after the other. -/
def writeAll (f : κ → β) (l : List α) : κ → β :=
  l.foldl (fun f x => Function.update f (key x) (value x)) f

/-- A field has the value of its last write. -/
theorem writeAll_apply (f : κ → β) (l : List α) (k : κ) : writeAll key value f l k =
    ((l.reverse.find? (fun x => decide (key x = k))).map value).getD (f k) := by
  induction l generalizing f with
  | nil => rfl
  | cons x l ih =>
    have htail : writeAll key value f (x::l) k =
      writeAll key value (Function.update f (key x) (value x)) l k := rfl
    rw [htail,ih,List.reverse_cons,List.find?_append]
    cases l.reverse.find? (fun x => decide (key x = k)) with
    | some y => rfl
    | none =>
      by_cases hk : key x = k
      · subst hk
        simp
      · simp [hk,Function.update_of_ne (Ne.symm hk)]

end Fields

end Containers
end SodaPool
