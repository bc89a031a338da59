import SodaPool.Syn

/-!
# The spelling of identifiers

A plain identifier starts with a letter or an underscore and goes on with letters, digits
and underscores, as Unicode classifies them. A raw one is displayed with `r#` before it,
and nothing that is displayed so is the text of a plain one.
-/

namespace SodaPool
namespace Syn

/-- The classes `XID_Start` and `XID_Continue` of Unicode, as far as they are relied on. -/
structure Lexicon where
  isXidStart : Char → Bool
  isXidContinue : Char → Bool
  alphanum : ∀ c : Char, c.isAlphanum → isXidContinue c
  underscore : isXidContinue '_'
  hash : isXidContinue '#' = false

namespace Lexicon

variable (lex : Lexicon)

/-- The texts that `Ident::new` takes; keywords are among them. -/
def Plain (text : String) : Prop :=
  match text.toList with
  | [] => False
  | c::cs => (c = '_' ∨ lex.isXidStart c) ∧ cs.all lex.isXidContinue

instance (text : String) : Decidable (lex.Plain text) := by
  unfold Plain
  split <;> infer_instance

/-- `Ident::new`, which panics where this gives nothing. -/
def identNew (text : String) : Option Ident := if lex.Plain text then some ⟨text⟩ else none

end Lexicon

/-- `to_string` gives the `r#` as well. -/
def Ident.Raw (i : Ident) : Prop := "r#".toList <+: i.text.toList

instance (i : Ident) : Decidable i.Raw := inferInstanceAs (Decidable (_ <+: _))

namespace Lexicon

variable {lex : Lexicon}

/-- An identifier of a file that can be read. -/
def Legal (lex : Lexicon) (i : Ident) : Prop :=
  lex.Plain i.text ∨ ∃ text, i.text = "r#" ++ text ∧ lex.Plain text

theorem legal_iff {i : Ident} :
    lex.Legal i ↔ lex.Plain i.text ∨ i.Raw ∧ lex.Plain (String.ofList (i.text.toList.drop 2)) := by
  refine or_congr_right ?_
  constructor
  · rintro ⟨text,htext,hplain⟩
    have hlist : i.text.toList = "r#".toList ++ text.toList := by rw [htext,String.toList_append]
    have hdrop : String.ofList (i.text.toList.drop 2) = text := by
      rw [hlist]
      exact String.ofList_toList
    rw [hdrop]
    exact ⟨⟨text.toList,hlist.symm⟩,hplain⟩
  · rintro ⟨⟨rest,hrest⟩,hplain⟩
    refine ⟨_,?_,hplain⟩
    rw [← String.toList_inj,String.toList_append,String.toList_ofList,← hrest]
    simp

instance (i : Ident) : Decidable (lex.Legal i) := decidable_of_iff _ legal_iff.symm

theorem plain_iff {text : String} : lex.Plain text ↔ ∃ c cs, text.toList = c::cs ∧
    (c = '_' ∨ lex.isXidStart c) ∧ ∀ d ∈ cs, lex.isXidContinue d := by
  rw [Plain]
  cases text.toList <;> simp

theorem identNew_eq_some {text : String} {i : Ident} :
    lex.identNew text = some i ↔ lex.Plain text ∧ i = ⟨text⟩ := by
  simp [identNew,eq_comm]

theorem text_of_identNew {text : String} {i : Ident} (h : lex.identNew text = some i) :
    i.text = text := by
  rw [(identNew_eq_some.mp h).2]

/-- Letters of ASCII, digits and underscores. -/
def Word (text : String) : Prop := text.toList.all (fun d => d.isAlphanum || d = '_')

instance (text : String) : Decidable (Word text) := inferInstanceAs (Decidable (_ = true))

/-- Every word character may follow. -/
theorem plain_append_iff {text tail : String} (htail : Word tail) (hne : text ≠ "") :
    lex.Plain (text ++ tail) ↔ lex.Plain text := by
  have hall : tail.toList.all lex.isXidContinue := by
    rw [Word,List.all_eq_true] at htail
    rw [List.all_eq_true]
    intro d hd
    have hword := htail d hd
    rw [Bool.or_eq_true,decide_eq_true_eq] at hword
    rcases hword with h | rfl
    · exact lex.alphanum d h
    · exact lex.underscore
  have hcons : ∃ c cs, text.toList = c::cs := by
    apply List.exists_cons_of_ne_nil
    simpa using hne
  obtain ⟨c,cs,hlist⟩ := hcons
  rw [Plain,Plain,String.toList_append,hlist]
  simp only [List.cons_append,List.all_append,hall,Bool.and_true]

theorem plain_append {text tail : String} (htail : Word tail) (h : lex.Plain text) :
    lex.Plain (text ++ tail) := by
  refine (plain_append_iff htail ?_).mpr h
  rintro rfl
  exact h

/-- No plain identifier starts like a raw one. -/
theorem not_plain_of_raw {text : String} (h : "r#".toList <+: text.toList) : ¬ lex.Plain text := by
  obtain ⟨rest,hrest⟩ := h
  rw [plain_iff]
  rintro ⟨c,cs,hlist,-,hall⟩
  rw [← hrest] at hlist
  cases hlist
  have hhash := hall '#' (List.mem_cons_self)
  rw [lex.hash] at hhash
  cases hhash

theorem Legal.plain_iff_not_raw {i : Ident} (h : lex.Legal i) : lex.Plain i.text ↔ ¬ i.Raw := by
  constructor
  · intro hp hr
    exact not_plain_of_raw hr hp
  · intro hr
    rcases h with hp | ⟨text,htext,-⟩
    · exact hp
    · refine absurd ?_ hr
      rw [Ident.Raw,htext,String.toList_append]
      exact List.prefix_append _ _

end Lexicon

/-- The classes as they are within ASCII. -/
def Lexicon.ascii : Lexicon where
  isXidStart := Char.isAlpha
  isXidContinue c := c.isAlphanum || c = '_'
  alphanum c h := by simp [h]
  underscore := by decide
  hash := by decide

end Syn
end SodaPool
