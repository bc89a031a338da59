import Mathlib.Data.List.Basic
import Mathlib.Tactic.Common

/-!
# Rust syntax, as far as the builder looks into it

The trees of `syn`, down to where the parser stops and the generator puts a name or a type
in. What neither of them opens is kept as its tokens.
-/

namespace SodaPool
namespace Syn

/-- An identifier by the text it prints, which for a raw one starts with `r#`. -/
structure Ident where
  text : String
  deriving DecidableEq

namespace Ident

/-- `to_string().ends_with(..)`. -/
def EndsWith (i : Ident) (tail : String) : Prop := tail.toList <:+ i.text.toList

instance (i : Ident) (tail : String) : Decidable (i.EndsWith tail) :=
  inferInstanceAs (Decidable (_ <:+ _))

end Ident

mutual

/-- A type is a path, an `impl` of some bounds, or of no interest. -/
inductive Ty
  | path (path : Path)
  | implTrait (bounds : List Bound)
  | other (tokens : String)

/-- `lead` is what stands before the first segment: leading colons, a qualified self type. -/
structure Path where
  lead : String
  segments : List Segment

structure Segment where
  ident : Ident
  arguments : Arguments

inductive Arguments
  | none
  | angleBracketed (args : List GenericArgument)
  | parenthesized (tokens : String)

inductive GenericArgument
  | type (ty : Ty)
  | assocType (ident : Ident) (ty : Ty)
  | other (tokens : String)

inductive Bound
  | trait (path : Path)
  | other (tokens : String)

end

inductive FnArg
  | receiver (tokens : String)
  | typed (pat : String) (ty : Ty)

inductive ReturnType
  | default
  | type (ty : Ty)

structure Attribute where
  path : Path
  tokens : String

/-- A function of an `impl` block; the qualifiers are all that stands before `fn`. -/
structure ImplItemFn where
  attrs : List Attribute
  qualifiers : String
  ident : Ident
  generics : String
  inputs : List FnArg
  output : ReturnType
  block : String

inductive ImplItem
  | fn (item : ImplItemFn)
  | other (tokens : String)

/-- The header is all that stands around the self type. -/
structure ItemImpl where
  header : String
  selfTy : Ty
  items : List ImplItem

mutual

inductive Item
  | mod (item : ItemMod)
  | impl (item : ItemImpl)
  | other (tokens : String)

/-- A module without content is declared only. -/
structure ItemMod where
  ident : Ident
  content : Option (List Item)

end

structure File where
  attrs : String
  items : List Item

/-! Equality of trees is decided constructor by constructor. -/

mutual

def Ty.decEq : ∀ a b : Ty, Decidable (a = b)
  | .path p,.path q => @decidable_of_iff _ (p = q) (by simp) (p.decEq q)
  | .implTrait l,.implTrait m => @decidable_of_iff _ (l = m) (by simp) (Bound.decEqList l m)
  | .other s,.other t => decidable_of_iff (s = t) (by simp)
  | .path _,.implTrait _ | .path _,.other _ | .implTrait _,.path _ | .implTrait _,.other _
  | .other _,.path _ | .other _,.implTrait _ => isFalse (by simp)
  termination_by structural x => x

def Path.decEq : ∀ p q : Path, Decidable (p = q)
  | ⟨a,l⟩,⟨b,m⟩ =>
    have := Segment.decEqList l m
    decidable_of_iff (a = b ∧ l = m) (by simp)
  termination_by structural x => x

def Segment.decEqList : ∀ l m : List Segment, Decidable (l = m)
  | [],[] => isTrue rfl
  | [],_::_ | _::_,[] => isFalse (by simp)
  | s::l,t::m =>
    have := s.decEq t
    have := Segment.decEqList l m
    decidable_of_iff (s = t ∧ l = m) (by simp)
  termination_by structural x => x

def Segment.decEq : ∀ s t : Segment, Decidable (s = t)
  | ⟨a,l⟩,⟨b,m⟩ =>
    have := l.decEq m
    decidable_of_iff (a = b ∧ l = m) (by simp)
  termination_by structural x => x

def Arguments.decEq : ∀ a b : Arguments, Decidable (a = b)
  | .none,.none => isTrue rfl
  | .angleBracketed l,.angleBracketed m =>
    @decidable_of_iff _ (l = m) (by simp) (GenericArgument.decEqList l m)
  | .parenthesized s,.parenthesized t => decidable_of_iff (s = t) (by simp)
  | .none,.angleBracketed _ | .none,.parenthesized _ | .angleBracketed _,.none
  | .angleBracketed _,.parenthesized _ | .parenthesized _,.none
  | .parenthesized _,.angleBracketed _ => isFalse (by simp)
  termination_by structural x => x

def GenericArgument.decEqList : ∀ l m : List GenericArgument, Decidable (l = m)
  | [],[] => isTrue rfl
  | [],_::_ | _::_,[] => isFalse (by simp)
  | s::l,t::m =>
    have := s.decEq t
    have := GenericArgument.decEqList l m
    decidable_of_iff (s = t ∧ l = m) (by simp)
  termination_by structural x => x

def GenericArgument.decEq : ∀ a b : GenericArgument, Decidable (a = b)
  | .type s,.type t => @decidable_of_iff _ (s = t) (by simp) (s.decEq t)
  | .assocType a s,.assocType b t =>
    have := s.decEq t
    decidable_of_iff (a = b ∧ s = t) (by simp)
  | .other s,.other t => decidable_of_iff (s = t) (by simp)
  | .type _,.assocType _ _ | .type _,.other _ | .assocType _ _,.type _ | .assocType _ _,.other _
  | .other _,.type _ | .other _,.assocType _ _ => isFalse (by simp)
  termination_by structural x => x

def Bound.decEqList : ∀ l m : List Bound, Decidable (l = m)
  | [],[] => isTrue rfl
  | [],_::_ | _::_,[] => isFalse (by simp)
  | s::l,t::m =>
    have := s.decEq t
    have := Bound.decEqList l m
    decidable_of_iff (s = t ∧ l = m) (by simp)
  termination_by structural x => x

def Bound.decEq : ∀ a b : Bound, Decidable (a = b)
  | .trait p,.trait q => @decidable_of_iff _ (p = q) (by simp) (p.decEq q)
  | .other s,.other t => decidable_of_iff (s = t) (by simp)
  | .trait _,.other _ | .other _,.trait _ => isFalse (by simp)

  termination_by structural x => x
end

instance : DecidableEq Ty := Ty.decEq
instance : DecidableEq Path := Path.decEq

deriving instance DecidableEq for FnArg, ReturnType, Attribute, ImplItemFn, ImplItem, ItemImpl

mutual

def Item.decEq : ∀ a b : Item, Decidable (a = b)
  | .mod m,.mod n => @decidable_of_iff _ (m = n) (by simp) (m.decEq n)
  | .impl s,.impl t => decidable_of_iff (s = t) (by simp)
  | .other s,.other t => decidable_of_iff (s = t) (by simp)
  | .mod _,.impl _ | .mod _,.other _ | .impl _,.mod _ | .impl _,.other _ | .other _,.mod _
  | .other _,.impl _ => isFalse (by simp)
  termination_by structural x => x

def Item.decEqList : ∀ l m : List Item, Decidable (l = m)
  | [],[] => isTrue rfl
  | [],_::_ | _::_,[] => isFalse (by simp)
  | s::l,t::m =>
    have := s.decEq t
    have := Item.decEqList l m
    decidable_of_iff (s = t ∧ l = m) (by simp)
  termination_by structural l => l

def Item.decEqContent : ∀ c d : Option (List Item), Decidable (c = d)
  | none,none => isTrue rfl
  | some l,some m => @decidable_of_iff _ (l = m) (by simp) (Item.decEqList l m)
  | none,some _ | some _,none => isFalse (by simp)
  termination_by structural c => c

def ItemMod.decEq : ∀ m n : ItemMod, Decidable (m = n)
  | ⟨a,l⟩,⟨b,m⟩ =>
    have := Item.decEqContent l m
    decidable_of_iff (a = b ∧ l = m) (by simp)
  termination_by structural m => m

end

instance : DecidableEq Item := Item.decEq

instance : DecidableEq ItemMod := ItemMod.decEq

deriving instance DecidableEq for File

/-- `get_ident`: the path is one bare identifier. -/
def Path.getIdent (p : Path) : Option Ident :=
  match p.lead,p.segments with
  | "",[⟨ident,.none⟩] => some ident
  | _,_ => none

/-- The first generic argument of a segment, if it is a type. -/
def Segment.firstType (s : Segment) : Option Ty :=
  match s.arguments with
  | .angleBracketed (.type ty::_) => some ty
  | _ => none

/-- A path of bare identifiers. -/
def Path.plain (segments : List String) : Path := ⟨"",segments.map (fun s => ⟨⟨s⟩,.none⟩)⟩

/-- A path of bare identifiers, the last of which takes a type. -/
def Path.applied (segments : List String) (last : String) (args : List GenericArgument) : Path :=
  ⟨"",segments.map (fun s => ⟨⟨s⟩,.none⟩) ++ [⟨⟨last⟩,.angleBracketed args⟩]⟩

end Syn
end SodaPool
