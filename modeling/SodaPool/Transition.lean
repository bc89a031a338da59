import Mathlib.Data.List.Basic
import Mathlib.Order.WellFounded
import Mathlib.Tactic.Common

/-!
# Runs of a labelled transition system

A system is a partial step function; a label that is not enabled has no
successor. `run` follows a list of labels. `Along` asks something of every label
in the state in which it is taken, `Always` of every state a run goes through.
-/

namespace SodaPool
namespace Transition

variable {σ α : Type*} {step : σ → α → Option σ}

/-- Follow a list of labels; the run exists when every label is enabled. -/
def run (step : σ → α → Option σ) : σ → List α → Option σ
  | s, [] => some s
  | s, l::ls => (step s l).bind (fun t => run step t ls)

/-- `P` holds of every label of the run, in the state in which it is taken. -/
def Along (step : σ → α → Option σ) (P : σ → α → Prop) : σ → List α → Prop
  | _, [] => True
  | s, l::ls => P s l ∧ ∀ t, step s l = some t → Along step P t ls

/-- `Q` holds of every state of the run, the first and the last included. -/
def Always (step : σ → α → Option σ) (Q : σ → Prop) : σ → List α → Prop
  | s, [] => Q s
  | s, l::ls => Q s ∧ ∀ t, step s l = some t → Always step Q t ls

@[simp] theorem run_nil (s : σ) : run step s [] = some s := rfl

theorem run_cons_eq_some {s u : σ} {l : α} {ls : List α} :
    run step s (l::ls) = some u ↔ ∃ t, step s l = some t ∧ run step t ls = some u := by
  simp [run,Option.bind_eq_some_iff]

theorem run_append {s u : σ} {ls ms : List α} :
    run step s (ls ++ ms) = some u ↔ ∃ t, run step s ls = some t ∧ run step t ms = some u := by
  induction ls generalizing s with
  | nil => simp
  | cons l ls ih =>
    simp only [List.cons_append,run_cons_eq_some,ih]
    constructor
    · rintro ⟨t,ht,v,hv,hu⟩
      exact ⟨v,⟨t,ht,hv⟩,hu⟩
    · rintro ⟨v,⟨t,ht,hv⟩,hu⟩
      exact ⟨t,ht,v,hv,hu⟩

@[simp] theorem along_nil (P : σ → α → Prop) (s : σ) : Along step P s [] := trivial

theorem along_append {P : σ → α → Prop} {s : σ} {ls ms : List α} :
    Along step P s (ls ++ ms) ↔
      Along step P s ls ∧ ∀ t, run step s ls = some t → Along step P t ms := by
  induction ls generalizing s with
  | nil => simp
  | cons l ls ih =>
    simp only [List.cons_append,Along,ih,run_cons_eq_some]
    constructor
    · rintro ⟨hp,h⟩
      exact ⟨⟨hp,fun t ht => (h t ht).1⟩,fun u ⟨t,ht,hu⟩ => (h t ht).2 u hu⟩
    · rintro ⟨⟨hp,h⟩,hm⟩
      exact ⟨hp,fun t ht => ⟨h t ht,fun u hu => hm u ⟨t,ht,hu⟩⟩⟩

theorem along_of_forall {P : σ → α → Prop} {ls : List α} (h : ∀ s, ∀ l ∈ ls, P s l) (s : σ) :
    Along step P s ls := by
  induction ls generalizing s with
  | nil => trivial
  | cons l ls ih =>
    have htail (t : σ) : ∀ m ∈ ls, P t m := fun m hm => h t m (List.mem_cons_of_mem l hm)
    exact ⟨h s l List.mem_cons_self,fun t _ => ih htail t⟩

/-- It is enough to look at each step from the state in which the run takes it. -/
theorem along_of_split {P : σ → α → Prop} {s : σ} {ls : List α}
    (h : ∀ pre l post t, ls = pre ++ l::post → run step s pre = some t → P t l) :
    Along step P s ls := by
  induction ls generalizing s with
  | nil => trivial
  | cons l ls ih =>
    refine ⟨h [] l ls s rfl rfl,fun t ht => ih ?_⟩
    intro pre m post v hsplit hrun
    apply h (l::pre) m post v (by rw [hsplit,List.cons_append])
    exact run_cons_eq_some.mpr ⟨t,ht,hrun⟩

instance decidableAlong {P : σ → α → Prop} [∀ s l, Decidable (P s l)] :
    ∀ s ls, Decidable (Along step P s ls)
  | _, [] => isTrue trivial
  | s, l::ls =>
    match h : step s l with
    | none => decidable_of_iff (P s l) (by simp [Along,h])
    | some t =>
      have := decidableAlong (P := P) t ls
      decidable_of_iff (P s l ∧ Along step P t ls) (by simp [Along,h])

theorem Along.mono {P P' : σ → α → Prop} (hp : ∀ s l, P s l → P' s l) {s : σ} {ls : List α}
    (h : Along step P s ls) : Along step P' s ls := by
  induction ls generalizing s with
  | nil => trivial
  | cons l ls ih => exact ⟨hp s l h.1,fun t ht => ih (h.2 t ht)⟩

theorem Along.and {P P' : σ → α → Prop} {s : σ} {ls : List α}
    (h : Along step P s ls) (h' : Along step P' s ls) :
    Along step (fun s l => P s l ∧ P' s l) s ls := by
  induction ls generalizing s with
  | nil => trivial
  | cons l ls ih => exact ⟨⟨h.1,h'.1⟩,fun t ht => ih (h.2 t ht) (h'.2 t ht)⟩

theorem Always.last {Q : σ → Prop} {s u : σ} {ls : List α} (h : Always step Q s ls)
    (hr : run step s ls = some u) : Q u := by
  induction ls generalizing s with
  | nil => cases hr; exact h
  | cons l ls ih =>
    obtain ⟨t,ht,hu⟩ := run_cons_eq_some.mp hr
    exact ih (h.2 t ht) hu

theorem Always.mono {Q Q' : σ → Prop} (hq : ∀ s, Q s → Q' s) {s : σ} {ls : List α}
    (h : Always step Q s ls) : Always step Q' s ls := by
  induction ls generalizing s with
  | nil => exact hq s h
  | cons l ls ih => exact ⟨hq s h.1,fun t ht => ih (h.2 t ht)⟩

theorem Always.of_append {Q : σ → Prop} {s t : σ} {ls ms : List α}
    (h : Always step Q s (ls ++ ms)) (hr : run step s ls = some t) : Always step Q t ms := by
  induction ls generalizing s with
  | nil => cases hr; exact h
  | cons l ls ih =>
    obtain ⟨v,hv,hrun⟩ := run_cons_eq_some.mp hr
    exact ih (h.2 v hv) hrun

/-- The invariant rule: what every step keeps, under a condition on the labels
of the run, holds in every state of the run. -/
theorem always_of_step {I : σ → Prop} {P : σ → α → Prop} {s : σ} {ls : List α}
    (hstep : ∀ s l t, I s → P s l → step s l = some t → I t)
    (hs : I s) (hp : Along step P s ls) : Always step I s ls := by
  induction ls generalizing s with
  | nil => exact hs
  | cons l ls ih => exact ⟨hs,fun t ht => ih (hstep s l t hs hp.1 ht) (hp.2 t ht)⟩

theorem run_invariant {I : σ → Prop} {P : σ → α → Prop} {s u : σ} {ls : List α}
    (hstep : ∀ s l t, I s → P s l → step s l = some t → I t)
    (hs : I s) (hp : Along step P s ls) (hr : run step s ls = some u) : I u :=
  (always_of_step hstep hs hp).last hr

/-- How often a run does something. -/
def tally (step : σ → α → Option σ) (does : σ → α → Bool) : σ → List α → ℕ
  | _, [] => 0
  | s, l::ls => (does s l).toNat + ((step s l).map (fun t => tally step does t ls)).getD 0

/-- The counting rule: an invariant that reads a counter, when every step that does something
counts. -/
theorem run_tally {I : σ → ℕ → Prop} {P : σ → α → Prop} {does : σ → α → Bool} {s u : σ} {ls : List α}
    {n : ℕ} (hstep : ∀ s l t n, I s n → P s l → step s l = some t → I t (n + (does s l).toNat))
    (hs : I s n) (hp : Along step P s ls) (hr : run step s ls = some u) :
    I u (n + tally step does s ls) := by
  induction ls generalizing s n with
  | nil =>
    cases hr
    exact hs
  | cons l ls ih =>
    obtain ⟨t,ht,hu⟩ := run_cons_eq_some.mp hr
    have htail := ih (hstep s l t n hs hp.1 ht) (hp.2 t ht) hu
    simpa only [tally,ht,Option.map_some,Option.getD_some,Nat.add_assoc] using htail

/-- What does not hold at the start of a run and holds at its end has come about in one
of its steps. -/
theorem exists_change {Q : σ → Prop} {s u : σ} {ls : List α} (hs : ¬ Q s)
    (hr : run step s ls = some u) (hu : Q u) :
    ∃ pre l post t t', ls = pre ++ l::post ∧ run step s pre = some t ∧
      step t l = some t' ∧ ¬ Q t ∧ Q t' := by
  induction ls generalizing s with
  | nil =>
    cases hr
    exact absurd hu hs
  | cons l ls ih =>
    obtain ⟨t,ht,hrun⟩ := run_cons_eq_some.mp hr
    by_cases hq : Q t
    · exact ⟨[],l,ls,s,t,rfl,rfl,ht,hs,hq⟩
    · obtain ⟨pre,m,post,v,v',rfl,hpre,hv,hnot,hnow⟩ := ih hq hrun
      exact ⟨l::pre,m,post,v,v',rfl,run_cons_eq_some.mpr ⟨t,ht,hpre⟩,hv,hnot,hnow⟩

/-- There is no infinite run from the state. -/
def Terminates (step : σ → α → Option σ) (s : σ) : Prop :=
  Acc (fun t s => ∃ l, step s l = some t) s

theorem terminates_of_measure {ω : Type*} [Preorder ω] [WellFoundedLT ω] {I : σ → Prop} {μ : σ → ω}
    (hstep : ∀ s l t, I s → step s l = some t → I t ∧ μ t < μ s) {s : σ} (hs : I s) :
    Terminates step s := by
  induction hm : μ s using WellFoundedLT.induction generalizing s with
  | ind m ih =>
    constructor
    rintro t ⟨l,ht⟩
    obtain ⟨hI,hlt⟩ := hstep s l t hs ht
    exact ih (μ t) (hm ▸ hlt) hI rfl

/-- The exactness rule. Under an invariant `I`, if steps that meet `C` keep `Q` and
steps that break `C` break `Q`, then a run keeps `Q` exactly when all its steps meet `C`. -/
theorem always_iff_along {I Q : σ → Prop} {P C : σ → α → Prop} {s u : σ} {ls : List α}
    (hstep : ∀ s l t, I s → P s l → step s l = some t → I t)
    (hgood : ∀ s l t, I s → Q s → P s l → C s l → step s l = some t → Q t)
    (hbad : ∀ s l t, I s → Q s → P s l → step s l = some t → Q t → C s l)
    (hs : I s) (hq : Q s) (hp : Along step P s ls) (hr : run step s ls = some u) :
    Always step Q s ls ↔ Along step C s ls := by
  induction ls generalizing s with
  | nil => simpa [Always] using hq
  | cons l ls ih =>
    obtain ⟨t,ht,hu⟩ := run_cons_eq_some.mp hr
    have htail (hqt : Q t) : Always step Q t ls ↔ Along step C t ls :=
      ih (hstep s l t hs hp.1 ht) hqt (hp.2 t ht) hu
    simp only [Always,Along,ht,Option.some.injEq,forall_eq']
    constructor
    · rintro ⟨-,ha⟩
      have hqt : Q t := by cases ls <;> first | exact ha | exact ha.1
      exact ⟨hbad s l t hs hq hp.1 ht hqt,(htail hqt).mp ha⟩
    · rintro ⟨hc,ha⟩
      exact ⟨hq,(htail (hgood s l t hs hq hp.1 hc ht)).mpr ha⟩

/-- The projection rule. If the kept labels can be followed by the smaller system and
the others cannot be seen in it, the run of the kept labels alone exists and ends in
a related state. -/
theorem run_filter {R : σ → σ → Prop} {P : σ → α → Prop} {keep : α → Bool}
    (hkeep : ∀ s s' l t, R s s' → P s l → keep l = true → step s l = some t →
      ∃ t', step s' l = some t' ∧ R t t')
    (hdrop : ∀ s s' l t, R s s' → P s l → keep l = false → step s l = some t → R t s')
    {s s' u : σ} {ls : List α} (hs : R s s') (hp : Along step P s ls)
    (hr : run step s ls = some u) :
    ∃ u', run step s' (ls.filter keep) = some u' ∧ R u u' := by
  induction ls generalizing s s' with
  | nil =>
    cases hr
    exact ⟨s',rfl,hs⟩
  | cons l ls ih =>
    obtain ⟨t,ht,hu⟩ := run_cons_eq_some.mp hr
    cases hk : keep l with
    | true =>
      obtain ⟨t',ht',hrel⟩ := hkeep s s' l t hs hp.1 hk ht
      obtain ⟨u',hu',hrel'⟩ := ih hrel (hp.2 t ht) hu
      refine ⟨u',?_,hrel'⟩
      rw [List.filter_cons_of_pos hk]
      exact run_cons_eq_some.mpr ⟨t',ht',hu'⟩
    | false =>
      rw [List.filter_cons_of_neg (by simp [hk])]
      exact ih (hdrop s s' l t hs hp.1 hk ht) (hp.2 t ht) hu

/-- The simulation rule. If every step shows in another system as a step with a label in `P`,
or not at all, a run shows as a run. -/
theorem exists_image_run {τ β : Type*} (g : τ → β → Option τ) {f : σ → τ} {P : β → Prop}
    (hstep : ∀ s l t, step s l = some t → f t = f s ∨ ∃ m, P m ∧ g (f s) m = some (f t))
    {s u : σ} {ls : List α} (hr : run step s ls = some u) :
    ∃ ms, (∀ m ∈ ms, P m) ∧ run g (f s) ms = some (f u) := by
  induction ls generalizing s with
  | nil =>
    cases hr
    exact ⟨[],by simp,rfl⟩
  | cons l ls ih =>
    obtain ⟨t,ht,hu⟩ := run_cons_eq_some.mp hr
    obtain ⟨ms,hms,hrun⟩ := ih hu
    rcases hstep s l t ht with hsame | ⟨m,hm,hm'⟩
    · exact ⟨ms,hms,hsame ▸ hrun⟩
    · exact ⟨m::ms,List.forall_mem_cons.mpr ⟨hm,hms⟩,run_cons_eq_some.mpr ⟨_,hm',hrun⟩⟩

end Transition
end SodaPool
