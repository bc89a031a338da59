import Mathlib.Data.List.Basic
import Mathlib.Tactic.Common

/-!
# The names of files

A name need not be text. It is cut at its last dot into a stem and an extension, unless
that dot is the first character.
-/

namespace SodaPool
namespace OsPath

/-- A character, or some bytes that are part of none. -/
inductive OsUnit
  | char (c : Char)
  | invalid (bytes : List UInt8)
  deriving DecidableEq

/-- The character a unit is. -/
def OsUnit.toChar : OsUnit → Option Char
  | .char c => some c
  | .invalid _ => none

abbrev OsStr := List OsUnit

namespace OsStr

def ofString (s : String) : OsStr := s.toList.map OsUnit.char

def toStr (s : OsStr) : Option String := (s.mapM OsUnit.toChar).map String.ofList

/-- What is no character is displayed as the replacement character. -/
def display (s : OsStr) : String :=
  String.ofList (s.map (fun unit => unit.toChar.getD (Char.ofNat 0xFFFD)))

def eqIgnoreAsciiCase (s t : OsStr) : Bool :=
  s.map lower = t.map lower
where
  lower : OsUnit → OsUnit
    | .char c => .char c.toLower
    | .invalid bytes => .invalid bytes

def dot : OsUnit := .char '.'

def slash : OsUnit := .char '/'

/-- The stem and the extension. -/
def rsplitFileAtDot (file : OsStr) : OsStr × Option OsStr :=
  match file.reverse.dropWhile (· ≠ dot) with
  | _::last::before =>
    ((last::before).reverse,some (file.reverse.takeWhile (· ≠ dot)).reverse)
  | _ => (file,none)

theorem rsplitFileAtDot_append {before after : OsStr} (hbefore : before ≠ [])
    (hafter : dot ∉ after) :
    rsplitFileAtDot (before ++ dot::after) = (before,some after) := by
  have hall : ∀ unit ∈ after.reverse, decide (unit ≠ dot) = true := by
    intro unit hunit
    rw [decide_eq_true_eq]
    rintro rfl
    exact hafter (List.mem_reverse.mp hunit)
  have hreverse : (before ++ dot::after).reverse = after.reverse ++ dot::before.reverse := by simp
  obtain ⟨last,rest,hlast⟩ := List.exists_cons_of_ne_nil (List.reverse_ne_nil_iff.mpr hbefore)
  have hdrop : (after.reverse ++ dot::before.reverse).dropWhile (· ≠ dot) = dot::last::rest := by
    rw [List.dropWhile_append_of_pos hall,hlast]
    rfl
  have htake : (after.reverse ++ dot::before.reverse).takeWhile (· ≠ dot) = after.reverse := by
    rw [List.takeWhile_append_of_pos hall,List.takeWhile_cons_of_neg (by decide),List.append_nil]
  rw [rsplitFileAtDot,hreverse,hdrop,htake]
  simp only [← hlast,List.reverse_reverse]

/-- The stem is where the name starts. -/
theorem rsplitFileAtDot_prefix (file : OsStr) : (rsplitFileAtDot file).1 <+: file := by
  rw [rsplitFileAtDot]
  split
  · rename_i unit last before hdrop
    have hsuffix : last::before <:+ file.reverse :=
      (List.suffix_cons unit _).trans (hdrop ▸ List.dropWhile_suffix _)
    rw [← List.reverse_prefix] at hsuffix
    simpa using hsuffix
  · exact List.prefix_rfl

/-- A name is cut at a dot that is not its first character. -/
theorem rsplitFileAtDot_eq_self_iff {file : OsStr} (h : file ≠ []) :
    (rsplitFileAtDot file).1 = file ↔ dot ∉ file.tail := by
  obtain ⟨first,rest,rfl⟩ := List.exists_cons_of_ne_nil h
  rw [List.tail_cons]
  constructor
  · intro heq hdot
    obtain ⟨after,before,hreverse,hafter⟩ := List.eq_append_cons_of_mem (List.mem_reverse.mpr hdot)
    have hrest : rest = before.reverse ++ dot::after.reverse := by
      rw [← List.reverse_reverse rest,hreverse]
      simp
    have hsplit : rsplitFileAtDot (first::before.reverse ++ dot::after.reverse) = _ :=
      rsplitFileAtDot_append (List.cons_ne_nil _ _) (by simpa using hafter)
    rw [hrest] at heq
    rw [List.cons_append] at hsplit
    rw [hsplit] at heq
    have hlength := congrArg List.length heq
    simp at hlength
  · intro hdot
    have hall : ∀ unit ∈ rest.reverse, decide (unit ≠ dot) = true := by
      intro unit hunit
      rw [decide_eq_true_eq]
      rintro rfl
      exact hdot (List.mem_reverse.mp hunit)
    rw [rsplitFileAtDot,List.reverse_cons,List.dropWhile_append_of_pos hall]
    by_cases hfirst : first = dot <;> simp [hfirst]

theorem rsplitFileAtDot_ne_nil {file : OsStr} (h : file ≠ []) : (rsplitFileAtDot file).1 ≠ [] := by
  rw [rsplitFileAtDot]
  split
  · simp
  · exact h

end OsStr

/-- The name of an entry of a directory. -/
@[ext]
structure FileName where
  units : OsStr
  ne_nil : units ≠ []
  no_slash : OsStr.slash ∉ units
  not_dots : units ∉ [OsStr.ofString ".",OsStr.ofString ".."]
  deriving DecidableEq

namespace FileName

def fileStem (n : FileName) : OsStr := (OsStr.rsplitFileAtDot n.units).1

def extension (n : FileName) : Option OsStr := (OsStr.rsplitFileAtDot n.units).2

/-- The stem, with another ending. -/
def ending (n : FileName) (tail : String) (hslash : OsStr.slash ∉ OsStr.ofString tail)
    (hlong : 3 ≤ (OsStr.ofString tail).length) : FileName where
  units := n.fileStem ++ OsStr.ofString tail
  ne_nil := by
    intro h
    rw [(List.append_eq_nil_iff.mp h).2] at hlong
    exact absurd hlong (by decide)
  no_slash := by
    rw [List.mem_append,not_or]
    exact ⟨fun h => n.no_slash ((OsStr.rsplitFileAtDot_prefix n.units).mem h),hslash⟩
  not_dots := by
    intro h
    have hlength : (n.fileStem ++ OsStr.ofString tail).length ≤ 2 := by
      rcases List.mem_pair.mp h with h | h <;> (rw [h]; decide)
    rw [List.length_append] at hlength
    omega

/-- `with_extension("rs")`. -/
def withExtensionRs (n : FileName) : FileName := n.ending ".rs" (by decide) (by decide)

/-- The extension is `rs`, in capitals or not. -/
def IsRs (n : FileName) : Prop :=
  ∃ ext, n.extension = some ext ∧ ext.eqIgnoreAsciiCase (OsStr.ofString "rs")

instance (n : FileName) : Decidable n.IsRs :=
  match h : n.extension with
  | some ext => decidable_of_iff (ext.eqIgnoreAsciiCase (OsStr.ofString "rs") = true)
      (by simp [IsRs,h])
  | none => isFalse (by simp [IsRs,h])

theorem fileStem_ne_nil (n : FileName) : n.fileStem ≠ [] := OsStr.rsplitFileAtDot_ne_nil n.ne_nil

theorem split_ending {n : FileName} {tail : String} {before after : OsStr} {hslash hlong}
    (htail : OsStr.ofString tail = before ++ OsStr.dot::after) (hafter : OsStr.dot ∉ after) :
    OsStr.rsplitFileAtDot (n.ending tail hslash hlong).units = (n.fileStem ++ before,some after) := by
  have hne : n.fileStem ++ before ≠ [] := by simp [n.fileStem_ne_nil]
  rw [← OsStr.rsplitFileAtDot_append hne hafter,List.append_assoc,← htail]
  rfl

theorem split_withExtensionRs (n : FileName) :
    OsStr.rsplitFileAtDot n.withExtensionRs.units = (n.fileStem,some (OsStr.ofString "rs")) := by
  have h : OsStr.rsplitFileAtDot n.withExtensionRs.units =
      (n.fileStem ++ [],some (OsStr.ofString "rs")) := split_ending rfl (by decide)
  rwa [List.append_nil] at h

@[simp] theorem fileStem_withExtensionRs (n : FileName) :
    n.withExtensionRs.fileStem = n.fileStem := by
  rw [fileStem,split_withExtensionRs]

theorem isRs_withExtensionRs (n : FileName) : n.withExtensionRs.IsRs := by
  refine ⟨OsStr.ofString "rs",?_,by decide⟩
  rw [extension,split_withExtensionRs]

theorem withExtensionRs_congr {n k : FileName} (h : n.fileStem = k.fileStem) :
    n.withExtensionRs = k.withExtensionRs := by
  simp only [withExtensionRs,ending,h]

end FileName
end OsPath
end SodaPool
