import Mathlib.Data.Int.CardIntervalMod
import SodaPool.ReadyChannels
import SodaPool.Transition

/-!
# Channels in turn

All calls of `get_any` take their numbers from one counter, and a number modulo the length
is a position of the list. The calls hold the list for reading together, so other calls may
take their numbers between the number and the entry of one.
-/

namespace SodaPool
namespace RoundRobin

open Transition

section Residues

/-- Of numbers in a row, each residue has its share, rounded down or up. -/
theorem count_residue (c k : ℕ) {n j : ℕ} (hj : j < n) :
    ((List.range k).map (fun m => (c+m)%n)).count j = k/n ∨
      ((List.range k).map (fun m => (c+m)%n)).count j = (k+n-1)/n := by
  have hn : 0 < n := Nat.zero_lt_of_lt hj
  -- the number that has to be added to `c` for the residue
  let d := (n-1)*c+j
  have hd : (c+d)%n = j := by
    have hmul : c+d = j+n*c := by
      simp only [d]
      obtain ⟨n,rfl⟩ := Nat.exists_eq_add_of_lt hn
      simp only [Nat.zero_add,Nat.add_sub_cancel]
      ring
    rw [hmul,Nat.add_mul_mod_self_left,Nat.mod_eq_of_lt hj]
  have hiff (m : ℕ) : (c+m)%n = j ↔ m ≡ d [MOD n] := by
    rw [← hd]
    exact ⟨Nat.ModEq.add_left_cancel' c,Nat.ModEq.add_left c⟩
  have hcount : ((List.range k).map (fun m => (c+m)%n)).count j = k.count (· ≡ d [MOD n]) := by
    rw [List.count,List.countP_map,Nat.count]
    apply List.countP_congr
    intro m _
    simp [hiff]
  rw [hcount,Nat.count_modEq_card k hn]
  split
  · rename_i hlt
    right
    have hmod := Nat.mod_lt k hn
    have hsplit : k+n-1 = (k%n-1)+n*(k/n+1) := by
      have hdiv := Nat.div_add_mod k n
      rw [Nat.mul_add]
      omega
    have hzero : (k%n-1)/n = 0 := Nat.div_eq_of_lt (by omega)
    rw [hsplit,Nat.add_mul_div_left _ _ hn,hzero,Nat.zero_add]
  · exact .inl rfl

end Residues

variable {ι Channel : Type}

/-- The program points of `get_any`. To index the list out of its bounds would be a panic. -/
inductive GetAny (Channel : Type)
  | start
  | reading
  | numbered (index : UInt64)
  | empty
  | returned (position : ℕ) (e : IpAddr × Channel)
  | panicked

/-- The calls on one list, and on record those that have taken a number, in that order. -/
structure Calls (ι Channel : Type) where
  ready : ReadyChannels Channel
  point : ι → GetAny Channel
  numbers : List ι

def start (r : ReadyChannels Channel) : Calls ι Channel := ⟨r,fun _ => .start,[]⟩

def GetAny.position : GetAny Channel → Option ℕ
  | .returned position _ => some position
  | _ => none

section Steps

variable [DecidableEq ι]

def Calls.set (s : Calls ι Channel) (call : ι) (g : GetAny Channel) : Calls ι Channel :=
  { s with point := Function.update s.point call g }

/-- The next step of a call. -/
def step (s : Calls ι Channel) (call : ι) : Option (Calls ι Channel) :=
  match s.point call with
  | .start => some (s.set call (if s.ready.channels.isEmpty then .empty else .reading))
  | .reading =>
    some { s.set call (.numbered s.ready.index) with
      ready := { s.ready with index := s.ready.index+1 }
      numbers := s.numbers ++ [call] }
  | .numbered index =>
    let position := index.toNat % s.ready.channels.length
    match s.ready.channels[position]? with
    | some e => some (s.set call (.returned position e))
    | none => some (s.set call .panicked)
  | _ => none

/-- What a call that runs alone does is one critical section. -/
theorem run_alone (r : ReadyChannels Channel) (call : ι) (h : r.channels ≠ []) :
    ∃ u : Calls ι Channel, run step (start r) [call,call,call] = some u ∧ u.ready = r.getAny.2 ∧
      ∃ position e, u.point call = .returned position e ∧ r.getAny.1 = some e := by
  have hlt := Nat.mod_lt r.index.toNat (List.length_pos_iff.mpr h)
  have hempty : r.channels.isEmpty = false := by simpa using h
  have hget : r.channels[r.index.toNat % r.channels.length]? =
      some r.channels[r.index.toNat % r.channels.length] := List.getElem?_eq_getElem hlt
  simp [run,step,start,Calls.set,ReadyChannels.getAny,hempty,hget]

end Steps

/-- The number that is taken after `m` others. -/
def number (r : ReadyChannels Channel) (m : ℕ) : UInt64 := r.index + UInt64.ofNat m

/-- The position it stands for. -/
def residue (r : ReadyChannels Channel) (m : ℕ) : ℕ := (number r m).toNat % r.channels.length

/-- The number of a call decides what it returns. -/
structure Fair (r : ReadyChannels Channel) (u : Calls ι Channel) : Prop where
  channels : u.ready.channels = r.channels
  index : u.ready.index = number r u.numbers.length
  nodup : u.numbers.Nodup
  taken : ∀ m call, u.numbers[m]? = some call →
    u.point call = .numbered (number r m) ∨
      ∃ e, r.channels[residue r m]? = some e ∧ u.point call = .returned (residue r m) e
  others : ∀ call, call ∉ u.numbers → u.point call = .start ∨ u.point call = .reading

theorem fair_start (r : ReadyChannels Channel) : Fair r (start r : Calls ι Channel) where
  channels := rfl
  index := by simp [start,number]
  nodup := List.nodup_nil
  taken m call h := by simp [start] at h
  others call _ := .inl rfl

variable {r : ReadyChannels Channel}

/-- As long as the counter does not wrap around, the numbers are in a row. -/
theorem residue_eq {k m : ℕ} (hk : r.index.toNat + k ≤ 2^64) (hm : m < k) :
    residue r m = (r.index.toNat+m) % r.channels.length := by
  rw [residue,number,UInt64.toNat_add,UInt64.toNat_ofNat']
  congr 1
  omega

/-- The positions that were returned, in the order of the numbers. -/
theorem Fair.positions {u : Calls ι Channel} (hu : Fair r u)
    (hidle : ∀ call index, u.point call ≠ .numbered index)
    (hwrap : r.index.toNat + u.numbers.length ≤ 2^64) :
    u.numbers.map (fun call => (u.point call).position) =
      ((List.range u.numbers.length).map
        (fun m => (r.index.toNat+m) % r.channels.length)).map some := by
  apply List.ext_getElem?
  intro m
  simp only [List.getElem?_map,Option.map_map]
  rcases Nat.lt_or_ge m u.numbers.length with hm | hm
  · have hget := List.getElem?_eq_getElem hm
    have hrange : (List.range u.numbers.length)[m]? = some m := by simp [hm]
    have hposition : (u.point u.numbers[m]).position = some (residue r m) := by
      rcases hu.taken m _ hget with hs | ⟨e,-,hs⟩
      · exact absurd hs (hidle _ _)
      · rw [hs]
        rfl
    rw [hget,hrange,Option.map_some,hposition,residue_eq hwrap hm]
    rfl
  · simp [hm]

variable [DecidableEq ι]

/-- A call that has its number changes nothing for the others. -/
theorem Fair.set {u : Calls ι Channel} (hu : Fair r u) {call : ι} {g : GetAny Channel}
    (hold : call ∉ u.numbers → g = .start ∨ g = .reading)
    (hnew : ∀ m, u.numbers[m]? = some call → g = .numbered (number r m) ∨
      ∃ e, r.channels[residue r m]? = some e ∧ g = .returned (residue r m) e) :
    Fair r (u.set call g) := by
  refine ⟨hu.channels,hu.index,hu.nodup,?_,?_⟩
  · intro m c hm
    by_cases hc : c = call
    · subst hc
      simpa [Calls.set] using hnew m hm
    · simpa [Calls.set,hc] using hu.taken m c hm
  · intro c hc
    by_cases hcall : c = call
    · subst hcall
      simpa [Calls.set] using hold hc
    · simpa [Calls.set,hcall] using hu.others c hc

/-- A call takes the next number. -/
theorem Fair.take {u : Calls ι Channel} (hu : Fair r u) {call : ι} (hnot : call ∉ u.numbers) :
    Fair r { u.set call (.numbered u.ready.index) with
      ready := { u.ready with index := u.ready.index+1 }
      numbers := u.numbers ++ [call] } := by
  refine ⟨hu.channels,?_,?_,?_,?_⟩
  · simp [hu.index,number,UInt64.ofNat_add,UInt64.add_assoc]
  · exact List.nodup_append.mpr ⟨hu.nodup,List.nodup_singleton _,by grind⟩
  · intro m c hm
    simp only [List.getElem?_append,Calls.set] at hm ⊢
    split at hm
    · have hc : c ≠ call := by
        rintro rfl
        exact hnot (List.mem_of_getElem? hm)
      simpa [hc] using hu.taken m c hm
    · rename_i hge
      obtain ⟨hlen,hc⟩ := List.getElem?_eq_some_iff.mp hm
      have hm : m = u.numbers.length := by
        simp only [List.length_singleton] at hlen
        omega
      subst hm
      left
      simp [← hc,hu.index]
  · intro c hc
    rw [List.mem_append,List.mem_singleton,not_or] at hc
    simpa [Calls.set,hc.2] using hu.others c hc.1

theorem Fair.step {u u' : Calls ι Channel} {call : ι} (hne : r.channels ≠ []) (hu : Fair r u)
    (h : step u call = some u') : Fair r u' := by
  have hempty : u.ready.channels.isEmpty = false := by
    rw [hu.channels]
    simpa using hne
  -- who has no number yet is not on record, who has one is
  have hfresh (hp : ∀ i, u.point call ≠ .numbered i) (hp' : ∀ p e, u.point call ≠ .returned p e) :
      call ∉ u.numbers := by
    intro hmem
    obtain ⟨m,hm⟩ := List.mem_iff_getElem?.mp hmem
    rcases hu.taken m call hm with hn | ⟨e,-,hr⟩
    · exact hp _ hn
    · exact hp' _ _ hr
  rw [RoundRobin.step] at h
  cases hp : u.point call with
  | start =>
    simp only [hp,hempty,Bool.false_eq_true,if_false,Option.some.injEq] at h
    subst h
    have hnot := hfresh (by simp [hp]) (by simp [hp])
    apply hu.set (fun _ => .inr rfl)
    intro m hm
    exact absurd (List.mem_of_getElem? hm) hnot
  | reading =>
    simp only [hp,Option.some.injEq] at h
    subst h
    have hnot := hfresh (by simp [hp]) (by simp [hp])
    exact hu.take hnot
  | numbered i =>
    have hlt := Nat.mod_lt i.toNat (List.length_pos_iff.mpr hne)
    have hget := List.getElem?_eq_getElem hlt
    simp only [hp,hu.channels,hget,Option.some.injEq] at h
    subst h
    refine hu.set (fun hnot => ?_) (fun m hm => ?_)
    · rcases hu.others call hnot with hs | hs <;> rw [hp] at hs <;> cases hs
    · right
      rcases hu.taken m call hm with hs | ⟨e,-,hs⟩
      · rw [hp] at hs
        cases hs
        exact ⟨_,hget,rfl⟩
      · rw [hp] at hs
        cases hs
  | empty => simp [hp] at h
  | returned p e => simp [hp] at h
  | panicked => simp [hp] at h

theorem fair_of_run {ls : List ι} {u : Calls ι Channel} (hne : r.channels ≠ [])
    (hr : run RoundRobin.step (start r) ls = some u) : Fair r u :=
  run_invariant (P := fun _ _ => True) (fun _ _ _ hI _ ht => hI.step hne ht) (fair_start r)
    (along_of_forall (fun _ _ _ => trivial) _) hr

/-- No call indexes the list out of its bounds. When all calls that have taken a number have
returned, and the counter has not wrapped around, every position of the list has been
returned by its share of them, rounded down or up. -/
theorem shares_of_run {ls : List ι} {u : Calls ι Channel} (hne : r.channels ≠ [])
    (hr : run RoundRobin.step (start r) ls = some u) :
    (∀ call, u.point call ≠ .panicked) ∧
      (∀ call position e, u.point call = .returned position e →
        call ∈ u.numbers ∧ r.channels[position]? = some e) ∧
      ((∀ call index, u.point call ≠ .numbered index) →
        r.index.toNat + u.numbers.length ≤ 2^64 →
        u.numbers.Nodup ∧ (∀ call ∈ u.numbers, (u.point call).position.isSome) ∧
          ∀ j < r.channels.length,
            (u.numbers.map (fun call => (u.point call).position)).count (some j) =
                u.numbers.length/r.channels.length ∨
              (u.numbers.map (fun call => (u.point call).position)).count (some j) =
                (u.numbers.length + r.channels.length - 1)/r.channels.length) := by
  have hu := fair_of_run hne hr
  have hcase (call : ι) : (call ∉ u.numbers ∧ (u.point call = .start ∨ u.point call = .reading)) ∨
      ∃ m : ℕ, u.numbers[m]? = some call := by
    by_cases hmem : call ∈ u.numbers
    · exact .inr (List.mem_iff_getElem?.mp hmem)
    · exact .inl ⟨hmem,hu.others call hmem⟩
  refine ⟨?_,?_,?_⟩
  · intro call hp
    rcases hcase call with ⟨-,hs | hs⟩ | ⟨m,hm⟩
    · simp [hp] at hs
    · simp [hp] at hs
    · rcases hu.taken m call hm with hs | ⟨e,-,hs⟩ <;> simp [hp] at hs
  · intro call position e hp
    rcases hcase call with ⟨-,hs | hs⟩ | ⟨m,hm⟩
    · simp [hp] at hs
    · simp [hp] at hs
    · rcases hu.taken m call hm with hs | ⟨e',he,hs⟩
      · simp [hp] at hs
      · rw [hp] at hs
        cases hs
        exact ⟨List.mem_of_getElem? hm,he⟩
  · intro hidle hwrap
    refine ⟨hu.nodup,fun call hcall => ?_,fun j hj => ?_⟩
    · obtain ⟨m,hm⟩ := List.mem_iff_getElem?.mp hcall
      rcases hu.taken m call hm with hs | ⟨e,-,hs⟩
      · exact absurd hs (hidle call _)
      · rw [hs]
        rfl
    · rw [hu.positions hidle hwrap,List.count_map_of_injective _ _ (Option.some_injective ℕ)]
      exact count_residue _ _ hj

/-- Two calls overlap on a list of two, and each entry is returned once. -/
theorem shares_overlapping : ∃ u : Calls Bool Unit,
    run RoundRobin.step (start ⟨[(.v4 1,()),(.v4 2,())],5⟩) [true,false,true,false,false,true] =
      some u ∧ u.numbers = [true,false] ∧
      ∀ j < 2, (u.numbers.map (fun call => (u.point call).position)).count (some j) = 1 := by
  have h : (run RoundRobin.step (start ⟨[(.v4 1,()),(.v4 2,())],5⟩ : Calls Bool Unit)
      [true,false,true,false,false,true]).map
        (fun u => (u.numbers,(u.point true).position,(u.point false).position)) =
      some ([true,false],some 1,some 0) := by decide
  obtain ⟨u,hu,heq⟩ := Option.map_eq_some_iff.mp h
  obtain ⟨hnumbers,htrue,hfalse⟩ : u.numbers = [true,false] ∧ (u.point true).position = some 1 ∧
      (u.point false).position = some 0 := by simpa using heq
  have hidle (call : Bool) (index : UInt64) : u.point call ≠ .numbered index := by
    intro hp
    cases call
    · simp [hp,GetAny.position] at hfalse
    · simp [hp,GetAny.position] at htrue
  have hshares := ((shares_of_run (by simp) hu).2.2 hidle (by simp [hnumbers])).2.2
  refine ⟨u,hu,hnumbers,fun j hj => ?_⟩
  simpa [hnumbers] using hshares j hj

end RoundRobin
end SodaPool
