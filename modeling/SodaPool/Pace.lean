import SodaPool.Managed

/-!
# How often the domain is looked up

The task looks the domain up and then waits for a tick. Ticks that it has missed come at once,
so its look-ups fall behind by at most what it was late, and are never ahead of the interval.
-/

namespace SodaPool
namespace Pace

open Transition Managed

variable {π Channel : Type} [DecidableEq π]

/-- The task of a pool is about to look the domain up. -/
def LooksUp (q : π) (m : Managed π Channel) : Event π Channel → Bool
  | .act l => l.pool = q ∧ Home.LooksUp (m.world.pool q) l.actor
  | _ => false

/-- There have been `n` look-ups. The first comes with the interval, and the next tick is as many
periods later as there have been others. -/
inductive Ticks (h : Home) (clock : ℕ) : ℕ → Prop
  | unborn : h.tick = none → Ticks h clock 0
  | first {created : ℕ} : h.tick = some created → h.dnsInterval ≠ 0 → h.since ≤ created →
      Ticks h clock 1
  | later {created k : ℕ} : h.tick = some (created+(k+1)*h.dnsInterval) → h.dnsInterval ≠ 0 →
      h.since ≤ created → created+k*h.dnsInterval ≤ clock → Ticks h clock (k+2)

theorem Ticks.lookUp {h h' : Home} {clock now n : ℕ} (ht : Ticks h clock n) (hle : clock ≤ now)
    (hsince : h.since ≤ clock) (hs : h.lookUp now = some h') : Ticks h' now (n+1) := by
  rcases Home.lookUp_eq_some hs with ⟨hnone,hinterval,rfl⟩ | ⟨deadline,hsome,hdue,rfl⟩
  · cases ht with
    | unborn => exact .first rfl hinterval (hsince.trans hle)
    | first htick => cases hnone.symm.trans htick
    | later htick => cases hnone.symm.trans htick
  · cases ht with
    | unborn htick => cases htick.symm.trans hsome
    | @first created htick hinterval hcreated =>
      cases htick.symm.trans hsome
      refine .later (k := 0) ?_ hinterval hcreated ?_
      · simp
      · simpa using hdue
    | @later created k htick hinterval hcreated hpast =>
      cases htick.symm.trans hsome
      refine .later (k := k+1) ?_ hinterval hcreated hdue
      simp only [Option.some.injEq]
      rw [Nat.succ_mul (k+1),Nat.add_assoc]

theorem Ticks.mono {h : Home} {clock now n : ℕ} (ht : Ticks h clock n) (hle : clock ≤ now) :
    Ticks h now n := by
  cases ht with
  | unborn htick => exact .unborn htick
  | first htick hinterval hcreated => exact .first htick hinterval hcreated
  | later htick hinterval hcreated hpast => exact .later htick hinterval hcreated (hpast.trans hle)

theorem Ticks.congr {h h' : Home} {clock n : ℕ} (ht : Ticks h clock n) (htick : h'.tick = h.tick)
    (hinterval : h'.dnsInterval = h.dnsInterval) (hsince : h'.since = h.since) :
    Ticks h' clock n := by
  cases ht with
  | unborn h₁ => exact .unborn (htick.trans h₁)
  | first h₁ h₂ h₃ => exact .first (htick.trans h₁) (hinterval ▸ h₂) (hsince ▸ h₃)
  | later h₁ h₂ h₃ h₄ =>
    rw [← hinterval] at h₁ h₂ h₄
    exact .later (htick.trans h₁) h₂ (hsince ▸ h₃) h₄

theorem tick_of_turn {h h' : Home} {p : Pool Channel} {t : Home.Turn} (hs : h.turn p t = some h') :
    h'.tick = h.tick ∧ h'.dnsInterval = h.dnsInterval ∧ h'.since = h.since := by
  cases Home.turns_of_turn hs <;> exact ⟨rfl,rfl,rfl⟩

/-- There have been `n` look-ups of a pool. -/
def Paced (q : π) (m : Managed π Channel) (n : ℕ) : Prop :=
  (m.home q = none → n = 0) ∧
    ∀ h, m.home q = some h → h.since ≤ m.world.clock ∧ Ticks h m.world.clock n

theorem paced_step {q : π} {m m' : Managed π Channel} {e : Event π Channel} {n : ℕ}
    (hm : Paced q m n) (hs : m.step e = some m') : Paced q m' (n+(LooksUp q m e).toNat) := by
  refine ⟨fun hq => ?_,fun h' hq => ?_⟩
  · have hnone := (home_eq_none hs hq).1
    have hquiet : LooksUp q m e = false := by
      cases goes_of_step hs with
      | build => rfl
      | turn => rfl
      | @act l h h' w hold =>
        have hne : l.pool ≠ q := by
          rintro rfl
          cases hnone.symm.trans hold
        simp [LooksUp,hne]
    rw [hquiet,hm.1 hnone]
    rfl
  · cases becomes_of_step hs hq with
    | other hother hold hsame hle =>
      have hquiet : LooksUp q m e = false := by
        cases e with
        | act l => simp [LooksUp,hother l rfl]
        | build => rfl
        | turn => rfl
      obtain ⟨hsince,hticks⟩ := hm.2 h' hold
      rw [hquiet]
      exact ⟨hsince.trans hle,hticks.mono hle⟩
    | build hnone hworld hhome =>
      subst hhome
      rw [hworld,hm.1 hnone]
      exact ⟨le_refl _,.unborn rfl⟩
    | turn hold hworld hturn =>
      obtain ⟨hsince,hticks⟩ := hm.2 _ hold
      obtain ⟨h₁,h₂,h₃⟩ := tick_of_turn hturn
      rw [hworld]
      exact ⟨h₃ ▸ hsince,hticks.congr h₁ h₂ h₃⟩
    | @act l h hpool hold hact hle hclock hmove =>
      obtain ⟨hsince,hticks⟩ := hm.2 h hold
      have hlook := (Home.act_eq_some hact).2
      obtain ⟨tick,htick⟩ := Home.act_home hact
      have hsince' : h'.since ≤ m'.world.clock := by
        rw [htick,hclock]
        exact hsince.trans hle
      refine ⟨hsince',?_⟩
      simp only [LooksUp,hpool,true_and,hclock]
      split at hlook
      · rename_i hdoes
        simpa [hdoes] using hticks.lookUp hle hsince hlook
      · rename_i hnot
        rw [hlook]
        simpa [hnot] using hticks.mono hle

/-- The look-ups of a pool keep to its interval: the first two can come at once, every other one
takes a period more, whatever else is done and however late the task runs. With no interval
there is none. -/
theorem paced_of_run {w : World π Channel} {m : Managed π Channel} {es : List (Event π Channel)}
    (hr : run step (start w) es = some m) {q : π} {h : Home} (hq : m.home q = some h) :
    (h.dnsInterval = 0 → tally step (LooksUp q) (start w) es = 0) ∧
      h.since+(tally step (LooksUp q) (start w) es-2)*h.dnsInterval ≤ m.world.clock := by
  have hstart : Paced q (start w) 0 := ⟨fun _ => rfl,fun h hq => by cases hq⟩
  have hpaced := run_tally (P := fun _ _ => True) (fun _ _ _ _ hn _ h => paced_step hn h) hstart
    (along_of_forall (fun _ _ _ => trivial) _) hr
  rw [Nat.zero_add] at hpaced
  obtain ⟨hsince,hticks⟩ := hpaced.2 h hq
  generalize tally step (LooksUp q) (start w) es = n at hticks
  cases hticks with
  | unborn htick => exact ⟨fun _ => rfl,by simpa using hsince⟩
  | first htick hinterval hcreated => exact ⟨fun h => absurd h hinterval,by simpa using hsince⟩
  | @later created k htick hinterval hcreated hpast =>
    refine ⟨fun h => absurd h hinterval,?_⟩
    rw [Nat.add_sub_cancel]
    exact (Nat.add_le_add_right hcreated _).trans hpast

/-- Two look-ups at once, and a third one after a period. -/
def lookedUp : List (Event Unit Unit) :=
  .build () 0 5::[0,0,5].map (fun now => .act (.quiet () (.task .dns) now))

theorem paced_lookedUp : ∃ (m : Managed Unit Unit) (h : Home),
    run step (start World.init) lookedUp = some m ∧ m.home () = some h ∧
      tally step (LooksUp ()) (start World.init) lookedUp = 3 ∧
      h.since+(3-2)*h.dnsInterval ≤ m.world.clock := by
  obtain ⟨m,h,hr,hq⟩ : ∃ (m : Managed Unit Unit) (h : Home),
      run step (start World.init) lookedUp = some m ∧ m.home () = some h := ⟨_,_,rfl,rfl⟩
  have htally : tally step (LooksUp ()) (start World.init) lookedUp = 3 := by decide
  have hpaced := (paced_of_run hr hq).2
  rw [htally] at hpaced
  exact ⟨m,h,hr,hq,htally,hpaced⟩

end Pace
end SodaPool
