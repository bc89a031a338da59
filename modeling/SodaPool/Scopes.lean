import Mathlib.Data.List.Infix
import Mathlib.Tactic.Common

/-!
# Modules, imports and the meaning of a name

A module is known by the names on the way to it, its own first, so the module around it is
the tail. A name means what the module declares by it; failing that, what a module imported
with a star declares. An item that is not public is for the module it is declared in and
those inside, and a star brings in no more than can be seen from where it stands.
-/

namespace SodaPool
namespace Scopes

/-- What is declared by a name. -/
structure Decl where
  isPub : Bool
  isModule : Bool
  deriving DecidableEq

/-- The declarations and the imports of all modules. An import goes up some modules, and down
again by name. -/
structure Crate where
  declared : List String → String → Option Decl
  stars : List String → List (ℕ × List String)

namespace Crate

variable (c : Crate)

/-- The module `m` declares the name, and `site` may use it. -/
def Shows (site m : List String) (x : String) : Prop :=
  ∃ e, c.declared m x = some e ∧ (e.isPub = true ∨ m <:+ site)

/-- Every name on the way is declared, and may be used. -/
def Walks (site : List String) : List String → List String → Prop
  | _,[] => True
  | m,x::xs => c.Shows site m x ∧ Walks site (x::m) xs

/-- The module that an import in `m` is of. -/
def target (m : List String) (star : ℕ × List String) : List String :=
  star.2.reverse ++ m.drop star.1

/-- In the module `m`, `site` finds by the name what is declared in the module `d.tail`. -/
def Sees (site m : List String) (x : String) (d : List String) : Prop :=
  (c.Shows site m x ∧ d = x::m) ∨
    (c.declared m x = none ∧ m <:+ site) ∧ ∃ star ∈ c.stars m,
      (star.1 ≤ m.length ∧ c.Walks m (m.drop star.1) star.2) ∧
        c.Shows m (target m star) x ∧ d = x::target m star

/-- What a path leads to from the module `m`. -/
def Leads (site : List String) : List String → List String → List String → Prop
  | m,[],d => d = m
  | m,x::xs,d => ∃ e, c.Sees site m x e ∧ Leads site e xs d

/-- What a path means in the module `site`: as many modules up as it begins with `super`, and
down by its names. -/
def Means (site : List String) (supers : ℕ) (segments d : List String) : Prop :=
  supers ≤ site.length ∧ c.Leads site (site.drop supers) segments d

variable {c}

theorem Shows.mono {site site' m : List String} {x : String} (h : c.Shows site m x)
    (hsite : site <:+ site') : c.Shows site' m x := by
  obtain ⟨e,he,hpub | hm⟩ := h
  · exact ⟨e,he,.inl hpub⟩
  · exact ⟨e,he,.inr (hm.trans hsite)⟩

/-- A declaration goes before all imports. -/
theorem sees_of_shows {site m d : List String} {x : String} (h : c.Shows site m x) :
    c.Sees site m x d ↔ d = x::m := by
  constructor
  · rintro (⟨-,hd⟩ | ⟨⟨hnone,-⟩,-⟩)
    · exact hd
    · obtain ⟨e,he,-⟩ := h
      rw [hnone] at he
      cases he
  · exact fun hd => .inl ⟨h,hd⟩

/-- Where everything on the way is declared, a path leads down. -/
theorem leads_of_walks {site m xs d : List String} (h : c.Walks site m xs) :
    c.Leads site m xs d ↔ d = xs.reverse ++ m := by
  induction xs generalizing m with
  | nil => rfl
  | cons x xs ih =>
    obtain ⟨hshows,hwalks⟩ := h
    simp only [Leads,sees_of_shows hshows,exists_eq_left,ih hwalks,List.reverse_cons,
      List.append_assoc,List.singleton_append]

theorem Walks.mono {site site' m xs : List String} (h : c.Walks site m xs)
    (hsite : site <:+ site') : c.Walks site' m xs := by
  induction xs generalizing m with
  | nil => trivial
  | cons x xs ih => exact ⟨h.1.mono hsite,ih h.2⟩

/-- A module with one import: what it does not declare is in the module it imports. -/
theorem sees_of_star {site m d : List String} {x : String} {star : ℕ × List String}
    (hnone : c.declared m x = none) (hsite : m <:+ site) (hstars : c.stars m = [star])
    (hlength : star.1 ≤ m.length) (hwalks : c.Walks m (m.drop star.1) star.2) :
    c.Sees site m x d ↔ c.Shows m (target m star) x ∧ d = x::target m star := by
  constructor
  · rintro (⟨⟨e,he,-⟩,-⟩ | ⟨-,star',hmem,-,hshows⟩)
    · rw [hnone] at he
      cases he
    · rw [hstars,List.mem_singleton] at hmem
      subst hmem
      exact hshows
  · intro hshows
    exact .inr ⟨⟨hnone,hsite⟩,star,by simp [hstars],⟨hlength,hwalks⟩,hshows⟩

end Crate

end Scopes
end SodaPool
