import Mathlib.Data.List.Basic
import Mathlib.Data.List.TakeWhile
import Mathlib.Tactic.Common

/-!
# A fair reader-writer lock

Writers queue in the order in which they ask. A reader that only tries gets in
when nobody writes and nobody is queued to write. `restrict` forgets some of the
callers; it is how a lock is seen by those who remain.
-/

namespace SodaPool
namespace FairLock

@[ext] structure RwLock (κ : Type) where
  readers : List κ
  writer : Option κ
  waiting : List κ
  deriving DecidableEq

namespace RwLock

variable {κ : Type}

def free : RwLock κ := ⟨[],none,[]⟩

/-- A try that fails leaves no trace. -/
def tryRead (l : RwLock κ) (c : κ) : Option (RwLock κ) :=
  if l.writer = none ∧ l.waiting = [] then some { l with readers := c :: l.readers } else none

def request (l : RwLock κ) (c : κ) : RwLock κ := { l with waiting := l.waiting ++ [c] }

/-- The lock as the callers in `p` see it when the others were never there. -/
def restrict (p : κ → Bool) (l : RwLock κ) : RwLock κ :=
  ⟨l.readers.filter p,l.writer.filter p,l.waiting.filter p⟩

section Restrict

variable {p : κ → Bool} {c : κ}

theorem restrict_tryRead {l l' : RwLock κ} (hc : p c = true) (h : l.tryRead c = some l') :
    (l.restrict p).tryRead c = some (l'.restrict p) := by
  obtain ⟨readers,writer,waiting⟩ := l
  simp only [tryRead,Option.ite_none_right_eq_some,Option.some.injEq] at h
  obtain ⟨⟨rfl,rfl⟩,rfl⟩ := h
  simp [restrict,tryRead,hc]

theorem restrict_request (hc : p c = true) (l : RwLock κ) :
    (l.request c).restrict p = (l.restrict p).request c := by
  simp [restrict,request,hc]

theorem restrict_tryRead_of_not {l l' : RwLock κ} (hc : p c = false)
    (h : l.tryRead c = some l') : l'.restrict p = l.restrict p := by
  simp only [tryRead,Option.ite_none_right_eq_some,Option.some.injEq] at h
  obtain ⟨-,rfl⟩ := h
  simp [restrict,hc]

theorem restrict_request_of_not (hc : p c = false) (l : RwLock κ) :
    (l.request c).restrict p = l.restrict p := by
  simp [restrict,request,hc]

end Restrict

variable [DecidableEq κ]

def releaseRead (l : RwLock κ) (c : κ) : RwLock κ := { l with readers := l.readers.erase c }

/-- The first of the queue gets the lock once the readers and the writer are gone. -/
def acquire (l : RwLock κ) (c : κ) : Option (RwLock κ) :=
  if l.readers = [] ∧ l.writer = none ∧ l.waiting.head? = some c then
    some { l with writer := some c, waiting := l.waiting.tail }
  else none

/-- A guard only releases its own hold. -/
def releaseWrite (l : RwLock κ) (c : κ) : RwLock κ :=
  { l with writer := if l.writer = some c then none else l.writer }

/-- A caller that gives up leaves the lock and its queue. -/
def forget (l : RwLock κ) (c : κ) : RwLock κ :=
  ⟨l.readers.erase c,if l.writer = some c then none else l.writer,l.waiting.erase c⟩

theorem acquire_eq_some {l l' : RwLock κ} {c : κ} :
    l.acquire c = some l' ↔ ∃ rest, l = ⟨[],none,c::rest⟩ ∧ l' = ⟨[],some c,rest⟩ := by
  obtain ⟨readers,writer,waiting⟩ := l
  cases waiting with
  | nil => simp [acquire]
  | cons d rest =>
    simp only [acquire,List.head?_cons,Option.some.injEq,List.tail_cons,Option.ite_none_right_eq_some,
      mk.injEq,List.cons.injEq]
    constructor
    · rintro ⟨⟨rfl,rfl,rfl⟩,rfl⟩
      exact ⟨rest,⟨rfl,rfl,rfl,rfl⟩,rfl⟩
    · rintro ⟨rest',⟨rfl,rfl,rfl,rfl⟩,rfl⟩
      exact ⟨⟨rfl,rfl,rfl⟩,rfl⟩

section Restrict

variable {p : κ → Bool} {c : κ}

theorem restrict_acquire {l l' : RwLock κ} (hc : p c = true) (h : l.acquire c = some l') :
    (l.restrict p).acquire c = some (l'.restrict p) := by
  obtain ⟨rest,rfl,rfl⟩ := acquire_eq_some.mp h
  exact acquire_eq_some.mpr ⟨rest.filter p,by simp [restrict,hc],by simp [restrict,hc]⟩

theorem restrict_releaseRead (l : RwLock κ) :
    (l.releaseRead c).restrict p = (l.restrict p).releaseRead c := by
  simp [restrict,releaseRead,List.erase_filter]

theorem restrict_releaseWrite (l : RwLock κ) :
    (l.releaseWrite c).restrict p = (l.restrict p).releaseWrite c := by
  obtain ⟨readers,writer,waiting⟩ := l
  cases writer with
  | none => rfl
  | some d =>
    by_cases h : d = c <;> cases hp : p d <;>
      simp [restrict,releaseWrite,Option.filter_some,h,hp]

theorem restrict_acquire_of_not {l l' : RwLock κ} (hc : p c = false)
    (h : l.acquire c = some l') : l'.restrict p = l.restrict p := by
  obtain ⟨rest,rfl,rfl⟩ := acquire_eq_some.mp h
  simp [restrict,Option.filter_some,hc]

theorem restrict_releaseRead_of_not (hc : p c = false) (l : RwLock κ) :
    (l.releaseRead c).restrict p = l.restrict p := by
  rw [restrict_releaseRead]
  simp [restrict,releaseRead,List.erase_of_not_mem,hc]

theorem restrict_releaseWrite_of_not (hc : p c = false) (l : RwLock κ) :
    (l.releaseWrite c).restrict p = l.restrict p := by
  rw [restrict_releaseWrite]
  obtain ⟨readers,writer,waiting⟩ := l
  cases writer with
  | none => rfl
  | some d =>
    have hd : p d = true → d ≠ c := by
      rintro hp rfl
      simp [hc] at hp
    cases hp : p d <;> simp [restrict,releaseWrite,Option.filter_some,hp,hd]

theorem restrict_forget (l : RwLock κ) : (l.forget c).restrict p = (l.restrict p).forget c := by
  have hr := congrArg RwLock.readers (restrict_releaseRead (p := p) (c := c) l)
  have hw := congrArg RwLock.writer (restrict_releaseWrite (p := p) (c := c) l)
  have hq : (l.waiting.erase c).filter p = (l.waiting.filter p).erase c := List.erase_filter.symm
  exact RwLock.ext hr hw hq

theorem restrict_forget_of_not (hc : p c = false) (l : RwLock κ) :
    (l.forget c).restrict p = l.restrict p := by
  have hr := congrArg RwLock.readers (restrict_releaseRead_of_not hc l)
  have hw := congrArg RwLock.writer (restrict_releaseWrite_of_not hc l)
  have hq : (l.waiting.erase c).filter p = l.waiting.filter p := by
    rw [← List.erase_filter]
    exact List.erase_of_not_mem (by simp [hc])
  exact RwLock.ext hr hw hq

end Restrict

/-- One operation of a caller on the lock. -/
inductive Touch (c : κ) (l : RwLock κ) : RwLock κ → Prop
  | none : Touch c l l
  | tryRead {l' : RwLock κ} : l.tryRead c = some l' → Touch c l l'
  | releaseRead : Touch c l (l.releaseRead c)
  | request : Touch c l (l.request c)
  | acquire {l' : RwLock κ} : l.acquire c = some l' → Touch c l l'
  | releaseWrite : Touch c l (l.releaseWrite c)
  | forget : Touch c l (l.forget c)

/-- The caller `d` is in, or is in the queue and not behind `c`. -/
def Ahead (l : RwLock κ) (c d : κ) : Prop :=
  l.writer = some d ∨ d ∈ l.waiting.takeWhile (· ≠ c)

/-- Nobody is ahead of who gets in. -/
theorem not_ahead_of_acquire {l l' : RwLock κ} {c : κ} (h : l.acquire c = some l') (d : κ) :
    ¬ l.Ahead c d := by
  obtain ⟨rest,rfl,-⟩ := acquire_eq_some.mp h
  simp [Ahead]

theorem mem_takeWhile_erase {c d e : κ} (hed : e ≠ d) (hec : e ≠ c) {w : List κ}
    (h : d ∈ w.takeWhile (· ≠ c)) : d ∈ (w.erase e).takeWhile (· ≠ c) := by
  induction w with
  | nil => exact h
  | cons x w ih =>
    by_cases hx : x = c
    · simp [hx] at h
    · simp only [List.takeWhile_cons,hx,ne_eq,not_false_eq_true,decide_true,if_true,
        List.mem_cons] at h
      by_cases hxe : x = e
      · subst hxe
        rw [List.erase_cons_head]
        exact h.resolve_left (Ne.symm hed)
      · rw [List.erase_cons_tail (by simpa using hxe)]
        simp only [List.takeWhile_cons,hx,ne_eq,not_false_eq_true,decide_true,if_true,List.mem_cons]
        exact h.imp_right ih

/-- A request comes last, whoever makes it. -/
theorem Ahead.request {l : RwLock κ} {c d : κ} (h : l.Ahead c d) (e : κ) :
    (l.request e).Ahead c d := by
  refine h.imp_right (fun hd => ?_)
  have hsub : l.waiting.takeWhile (· ≠ c) <+: (l.waiting ++ [e]).takeWhile (· ≠ c) := by
    rw [List.takeWhile_append]
    split
    · rename_i hall
      rw [List.IsPrefix.eq_of_length (List.takeWhile_prefix _) hall]
      exact List.prefix_append _ _
    · exact List.prefix_rfl
  exact hsub.subset hd

/-- Who is ahead stays ahead, whatever the others do, until it is through itself. -/
theorem Ahead.touch {l l' : RwLock κ} {c d e : κ} (h : l.Ahead c d) (hed : e ≠ d) (hec : e ≠ c)
    (ht : Touch e l l') : l'.Ahead c d := by
  have hwriter (hw : l.writer = some d) : (if l.writer = some e then none else l.writer) = some d := by
    rw [hw,if_neg (by simpa using Ne.symm hed)]
  cases ht with
  | none => exact h
  | tryRead hl =>
    simp only [RwLock.tryRead,Option.ite_none_right_eq_some,Option.some.injEq] at hl
    obtain ⟨-,rfl⟩ := hl
    exact h
  | releaseRead => exact h
  | request => exact h.request e
  | acquire hl =>
    obtain ⟨rest,rfl,rfl⟩ := acquire_eq_some.mp hl
    have hd : d ∈ (e::rest).takeWhile (· ≠ c) := h.resolve_left (by simp)
    simp only [List.takeWhile_cons,hec,ne_eq,not_false_eq_true,decide_true,if_true,
      List.mem_cons] at hd
    exact .inr (hd.resolve_left (Ne.symm hed))
  | releaseWrite => exact h.imp_left hwriter
  | forget => exact h.imp hwriter (mem_takeWhile_erase hed hec)

/-- What a caller has to do with the lock. -/
inductive Role
  | out
  | reading
  | queued
  | writing
  deriving DecidableEq

/-- The lock knows the callers by their roles, and each of them once. -/
structure Agrees (l : RwLock κ) (role : κ → Role) : Prop where
  readers : ∀ c, c ∈ l.readers ↔ role c = .reading
  waiting : ∀ c, c ∈ l.waiting ↔ role c = .queued
  writer : ∀ c, l.writer = some c ↔ role c = .writing
  nodup : l.readers.Nodup ∧ l.waiting.Nodup

namespace Agrees

variable {l l' : RwLock κ} {role : κ → Role} {c : κ}

omit [DecidableEq κ] in
theorem free {role : κ → Role} (h : ∀ c, role c = .out) : Agrees RwLock.free role :=
  ⟨by simp [RwLock.free,h],by simp [RwLock.free,h],by simp [RwLock.free,h],by simp [RwLock.free]⟩

theorem tryRead (h : Agrees l role) (hc : role c = .out) (hl : l.tryRead c = some l') :
    Agrees l' (Function.update role c .reading) := by
  simp only [RwLock.tryRead,Option.ite_none_right_eq_some,Option.some.injEq] at hl
  obtain ⟨-,rfl⟩ := hl
  obtain ⟨hr,hq,hw,hn⟩ := h
  constructor <;> grind

theorem releaseRead (h : Agrees l role) (hc : role c = .reading) :
    Agrees (l.releaseRead c) (Function.update role c .out) := by
  obtain ⟨hr,hq,hw,hn⟩ := h
  constructor <;> grind [RwLock.releaseRead]

theorem request (h : Agrees l role) (hc : role c = .out) :
    Agrees (l.request c) (Function.update role c .queued) := by
  obtain ⟨hr,hq,hw,hn⟩ := h
  constructor <;> grind [RwLock.request]

theorem acquire (h : Agrees l role) (hl : l.acquire c = some l') :
    Agrees l' (Function.update role c .writing) := by
  obtain ⟨rest,rfl,rfl⟩ := acquire_eq_some.mp hl
  obtain ⟨hr,hq,hw,hn⟩ := h
  constructor <;> grind

theorem releaseWrite (h : Agrees l role) (hc : role c = .writing) :
    Agrees (l.releaseWrite c) (Function.update role c .out) := by
  obtain ⟨hr,hq,hw,hn⟩ := h
  constructor <;> grind [RwLock.releaseWrite]

theorem forget (h : Agrees l role) : Agrees (l.forget c) (Function.update role c .out) := by
  obtain ⟨hr,hq,hw,hn⟩ := h
  constructor <;> grind [RwLock.forget]

/-- Who is queued gets the lock, or somebody reads, writes or is ahead in the queue. -/
theorem acquire_or_blocked (h : Agrees l role) (hc : role c = .queued) :
    (∃ l', l.acquire c = some l') ∨
      ∃ d, (d ∈ l.readers ∨ l.writer = some d ∨ d ∈ l.waiting.takeWhile (· ≠ c)) := by
  obtain ⟨readers,writer,waiting⟩ := l
  have hmem : c ∈ waiting := (h.waiting c).mpr hc
  cases readers with
  | cons d readers => exact .inr ⟨d,.inl List.mem_cons_self⟩
  | nil =>
    cases writer with
    | some d => exact .inr ⟨d,.inr (.inl rfl)⟩
    | none =>
      cases waiting with
      | nil => simp at hmem
      | cons d waiting =>
        by_cases hd : d = c
        · subst hd
          exact .inl ⟨_,acquire_eq_some.mpr ⟨waiting,rfl,rfl⟩⟩
        · exact .inr ⟨d,.inr (.inr (by simp [hd]))⟩

end Agrees

end RwLock

end FairLock
end SodaPool
