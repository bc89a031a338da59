import Mathlib.Data.List.Basic
import Mathlib.Data.List.Nodup
import Mathlib.Data.List.TakeWhile
import Mathlib.Logic.Relation
import Mathlib.Order.WellFounded
import Mathlib.Tactic.Common

/-!
# A lock as the line of those who asked for it

The tickets stand in the order of the requests. A shared ticket is let in behind shared
tickets that are in already, an exclusive one only from the front. A ticket stays in the
line until its guard is dropped. The second part is about who waits for whom: ranks that
fall along the relation rule out a deadlock.
-/

namespace SodaPool
namespace LockLine

inductive Mode
  | shared
  | exclusive
  deriving DecidableEq

/-- The section behind a ticket is yet to be entered, entered, or over with its guard still held. -/
inductive Stage
  | waiting
  | entered
  | leaving
  deriving DecidableEq

structure Ticket (α : Type) where
  agent : α
  mode : Mode
  stage : Stage
  deriving DecidableEq

namespace Ticket

variable {α : Type}

/-- What may be ahead of a shared ticket that is in. -/
def Passes (t : Ticket α) : Prop := t.mode = .shared ∧ t.stage ≠ .waiting

instance (t : Ticket α) : Decidable t.Passes := inferInstanceAs (Decidable (_ ∧ _))

/-- The ticket `s` does not keep out the ticket `t` behind it. -/
def LetsIn (s t : Ticket α) : Prop := s.Passes ∧ t.mode = .shared

instance (s t : Ticket α) : Decidable (s.LetsIn t) := inferInstanceAs (Decidable (_ ∧ _))

/-- A ticket goes on to a stage. -/
def move (stage : Stage) (t : Ticket α) : Ticket α := { t with stage := stage }

end Ticket

/-- An agent has at most one ticket, and who is in was let in by all those ahead. -/
structure Line (α : Type) where
  tickets : List (Ticket α)
  distinct : (tickets.map Ticket.agent).Nodup
  ordered : tickets.Pairwise (fun s t => t.stage ≠ .waiting → s.LetsIn t)

namespace Line

variable {α : Type}

def free : Line α := ⟨[],List.nodup_nil,List.Pairwise.nil⟩

/-- The agents with a ticket. -/
def agents (l : Line α) : List α := l.tickets.map Ticket.agent

def At (l : Line α) (stage : Stage) (a : α) : Prop :=
  ∃ t ∈ l.tickets, t.agent = a ∧ t.stage = stage

/-- The agent is in, or its guard is still held. -/
def Holds (l : Line α) (a : α) : Prop := l.At .entered a ∨ l.At .leaving a

instance [DecidableEq α] (l : Line α) (stage : Stage) (a : α) : Decidable (l.At stage a) :=
  inferInstanceAs (Decidable (∃ t ∈ _, _))

theorem At.mem {l : Line α} {stage : Stage} {a : α} (h : l.At stage a) : a ∈ l.agents := by
  obtain ⟨t,ht,rfl,-⟩ := h
  exact List.mem_map_of_mem ht

theorem Holds.mem {l : Line α} {a : α} (h : l.Holds a) : a ∈ l.agents := h.elim At.mem At.mem

theorem mem_agents {l : Line α} {a : α} : a ∈ l.agents ↔ l.At .waiting a ∨ l.Holds a := by
  constructor
  · intro h
    obtain ⟨t,ht,rfl⟩ := List.mem_map.mp h
    cases hs : t.stage with
    | waiting => exact .inl ⟨t,ht,rfl,hs⟩
    | entered => exact .inr (.inl ⟨t,ht,rfl,hs⟩)
    | leaving => exact .inr (.inr ⟨t,ht,rfl,hs⟩)
  · rintro (h | h)
    · exact h.mem
    · exact h.mem

theorem eq_of_agent_eq {l : Line α} {s t : Ticket α} (hs : s ∈ l.tickets) (ht : t ∈ l.tickets)
    (h : s.agent = t.agent) : s = t :=
  List.inj_on_of_nodup_map l.distinct hs ht h

theorem At.stage_eq {l : Line α} {stage stage' : Stage} {a : α} (h : l.At stage a)
    (h' : l.At stage' a) : stage = stage' := by
  obtain ⟨t,ht,rfl,rfl⟩ := h
  obtain ⟨t',ht',hagent,rfl⟩ := h'
  rw [eq_of_agent_eq ht ht' hagent.symm]

theorem At.not_holds {l : Line α} {a : α} (h : l.At .waiting a) : ¬ l.Holds a := by
  rintro (h' | h')
  · cases h.stage_eq h'
  · cases h.stage_eq h'

/-- Nobody is in beside an exclusive ticket that is in. -/
theorem alone {l : Line α} {s t : Ticket α} (ht : t ∈ l.tickets) (hmode : t.mode = .exclusive)
    (hin : t.stage ≠ .waiting) (hs : s ∈ l.tickets) (hne : s ≠ t) : s.stage = .waiting := by
  by_contra hsin
  obtain ⟨pre,post,hsplit⟩ := List.append_of_mem ht
  have hord := l.ordered
  rw [hsplit,List.pairwise_append,List.pairwise_cons] at hord
  obtain ⟨-,⟨hafter,-⟩,hbefore⟩ := hord
  rw [hsplit,List.mem_append,List.mem_cons] at hs
  rcases hs with hs | rfl | hs
  · have hshared := (hbefore s hs t List.mem_cons_self hin).2
    simp [hmode] at hshared
  · exact hne rfl
  · have hshared := (hafter s hs hsin).1.1
    simp [hmode] at hshared

variable [DecidableEq α]

/-- The tickets ahead of an agent. -/
def ahead (l : Line α) (a : α) : List (Ticket α) := l.tickets.takeWhile (fun t => t.agent ≠ a)

/-- The stage of one agent changes. -/
def mark (stage : Stage) (a : α) (tickets : List (Ticket α)) : List (Ticket α) :=
  tickets.map (fun t => if t.agent = a then t.move stage else t)

@[simp] theorem agents_mark (stage : Stage) (a : α) (tickets : List (Ticket α)) :
    (mark stage a tickets).map Ticket.agent = tickets.map Ticket.agent := by
  rw [mark,List.map_map]
  apply List.map_congr_left
  intro t _
  by_cases ha : t.agent = a <;> simp [ha,Ticket.move]

theorem mark_of_notMem {stage : Stage} {a : α} {tickets : List (Ticket α)}
    (h : ∀ t ∈ tickets, t.agent ≠ a) : mark stage a tickets = tickets := by
  have hid : ∀ t ∈ tickets, (if t.agent = a then t.move stage else t) = t :=
    fun t ht => if_neg (h t ht)
  rw [mark,List.map_congr_left hid,List.map_id']

/-- A line around one of its tickets, before and after the ticket has moved. -/
theorem split {l : Line α} {t : Ticket α} (ht : t ∈ l.tickets) :
    ∃ post, l.tickets = l.ahead t.agent ++ t::post ∧
      ∀ stage, mark stage t.agent l.tickets = l.ahead t.agent ++ t.move stage::post := by
  have hdrop : ∃ s post, l.tickets.dropWhile (fun u => u.agent ≠ t.agent) = s::post := by
    apply List.exists_cons_of_ne_nil
    rw [Ne,List.dropWhile_eq_nil_iff]
    intro hall
    simpa using hall t ht
  obtain ⟨s,post,hs⟩ := hdrop
  have hsplit : l.tickets = l.ahead t.agent ++ s::post := by
    rw [ahead,← hs,List.takeWhile_append_dropWhile]
  have hagent : s.agent = t.agent := by
    have hhead := List.head?_dropWhile_not (fun u : Ticket α => u.agent ≠ t.agent) l.tickets
    rw [hs] at hhead
    simpa using hhead
  have hst : s = t := eq_of_agent_eq (by simp [hsplit]) ht hagent
  subst hst
  refine ⟨post,hsplit,fun stage => ?_⟩
  have hpre : mark stage s.agent (l.ahead s.agent) = l.ahead s.agent := by
    apply mark_of_notMem
    intro u hu
    simpa using List.mem_takeWhile_imp hu
  have hpost : mark stage s.agent post = post := by
    have hd := l.distinct
    rw [hsplit,List.map_append,List.map_cons] at hd
    have hnot := (List.nodup_cons.mp (List.nodup_append.mp hd).2.1).1
    apply mark_of_notMem
    intro u hu hu'
    exact hnot (hu' ▸ List.mem_map_of_mem hu)
  rw [hsplit]
  simp only [mark,List.map_append,List.map_cons,if_true] at hpre hpost ⊢
  rw [hpre,hpost]

/-- A ticket that all those ahead let in may be in. -/
theorem ordered_mark {l : Line α} {a : α} {stage : Stage} (hstage : stage ≠ .waiting)
    (h : ∀ t ∈ l.tickets, t.agent = a → ∀ s ∈ l.ahead a, s.LetsIn t) :
    (mark stage a l.tickets).Pairwise (fun s t => t.stage ≠ .waiting → s.LetsIn t) := by
  by_cases ha : a ∈ l.agents
  · obtain ⟨t,ht,rfl⟩ := List.mem_map.mp ha
    obtain ⟨post,hsplit,hmark⟩ := split ht
    have hord := l.ordered
    rw [hsplit,List.pairwise_append,List.pairwise_cons] at hord
    obtain ⟨hpre,⟨hafter,hpost⟩,hbetween⟩ := hord
    rw [hmark,List.pairwise_append,List.pairwise_cons]
    refine ⟨hpre,⟨fun u hu hin => ?_,hpost⟩,fun s hs u hu hin => ?_⟩
    · have hlets := hafter u hu hin
      exact ⟨⟨hlets.1.1,hstage⟩,hlets.2⟩
    · rcases List.mem_cons.mp hu with rfl | hu
      · exact h t ht rfl s hs
      · exact hbetween s hs u (List.mem_cons_of_mem t hu) hin
  · have hnone : ∀ t ∈ l.tickets, t.agent ≠ a := by
      rintro t ht rfl
      exact ha (List.mem_map_of_mem ht)
    rw [mark_of_notMem hnone]
    exact l.ordered

theorem letsIn_of_in {l : Line α} {t : Ticket α} (ht : t ∈ l.tickets) (hin : t.stage ≠ .waiting) :
    ∀ s ∈ l.ahead t.agent, s.LetsIn t := by
  intro s hs
  obtain ⟨post,hsplit,-⟩ := split ht
  have hord := l.ordered
  rw [hsplit,List.pairwise_append] at hord
  exact hord.2.2 s hs t List.mem_cons_self hin

/-- A new ticket at the end of the line. -/
def request (l : Line α) (a : α) (mode : Mode) : Option (Line α) :=
  if h : a ∈ l.agents then none
  else some {
    tickets := l.tickets ++ [⟨a,mode,.waiting⟩]
    distinct := by
      rw [List.map_append]
      exact l.distinct.append (List.nodup_singleton a) (List.disjoint_singleton.mpr h)
    ordered := by
      rw [List.pairwise_append]
      refine ⟨l.ordered,List.pairwise_singleton _ _,fun s _ t ht hin => ?_⟩
      rw [List.mem_singleton.mp ht] at hin
      exact absurd rfl hin }

/-- Those ahead let the agent in. -/
def Admits (l : Line α) (a : α) : Prop :=
  l.At .waiting a ∧ ∀ t ∈ l.tickets, t.agent = a → ∀ s ∈ l.ahead a, s.LetsIn t

instance (l : Line α) (a : α) : Decidable (l.Admits a) := inferInstanceAs (Decidable (_ ∧ _))

def enter (l : Line α) (a : α) : Option (Line α) :=
  if h : l.Admits a then
    some ⟨mark .entered a l.tickets,by simpa using l.distinct,ordered_mark (by simp) h.2⟩
  else none

/-- The section is over. -/
def finish (l : Line α) (a : α) : Option (Line α) :=
  if h : l.At .entered a then
    some {
      tickets := mark .leaving a l.tickets
      distinct := by simpa using l.distinct
      ordered := by
        apply ordered_mark (by simp)
        rintro t ht rfl s hs
        obtain ⟨t',ht',hagent,hstage⟩ := h
        obtain rfl := eq_of_agent_eq ht' ht hagent
        exact letsIn_of_in ht (by simp [hstage]) s hs }
  else none

/-- Some agents are gone, and their tickets with them. -/
def forget (l : Line α) (gone : α → Bool) : Line α where
  tickets := l.tickets.filter (fun t => !gone t.agent)
  distinct := l.distinct.sublist (List.filter_sublist.map Ticket.agent)
  ordered := l.ordered.sublist List.filter_sublist

/-- The guard is dropped. -/
def leave (l : Line α) (a : α) : Option (Line α) :=
  if l.At .leaving a then some (l.forget (fun b => b = a)) else none

theorem request_eq_some {l l' : Line α} {a : α} {mode : Mode} (h : l.request a mode = some l') :
    a ∉ l.agents ∧ l'.tickets = l.tickets ++ [⟨a,mode,.waiting⟩] := by
  simp only [request,Option.dite_none_left_eq_some,Option.some.injEq] at h
  obtain ⟨ha,rfl⟩ := h
  exact ⟨ha,rfl⟩

theorem enter_eq_some {l l' : Line α} {a : α} (h : l.enter a = some l') :
    l.At .waiting a ∧ l'.tickets = mark .entered a l.tickets := by
  simp only [enter,Option.dite_none_right_eq_some,Option.some.injEq] at h
  obtain ⟨ha,rfl⟩ := h
  exact ⟨ha.1,rfl⟩

theorem finish_eq_some {l l' : Line α} {a : α} (h : l.finish a = some l') :
    l.At .entered a ∧ l'.tickets = mark .leaving a l.tickets := by
  simp only [finish,Option.dite_none_right_eq_some,Option.some.injEq] at h
  obtain ⟨ha,rfl⟩ := h
  exact ⟨ha,rfl⟩

theorem leave_eq_some {l l' : Line α} {a : α} (h : l.leave a = some l') :
    l.At .leaving a ∧ l' = l.forget (fun b => b = a) := by
  simp only [leave,Option.ite_none_right_eq_some,Option.some.injEq] at h
  exact ⟨h.1,h.2.symm⟩

omit [DecidableEq α] in
theorem mem_forget {l : Line α} {gone : α → Bool} {t : Ticket α} :
    t ∈ (l.forget gone).tickets ↔ t ∈ l.tickets ∧ gone t.agent = false := by
  simp [forget]

theorem mem_mark {stage : Stage} {a : α} {tickets : List (Ticket α)} {u : Ticket α} :
    u ∈ mark stage a tickets ↔ (u ∈ tickets ∧ u.agent ≠ a) ∨
      ∃ t ∈ tickets, t.agent = a ∧ u = t.move stage := by
  rw [mark,List.mem_map]
  constructor
  · rintro ⟨t,ht,rfl⟩
    by_cases ha : t.agent = a
    · exact .inr ⟨t,ht,ha,if_pos ha⟩
    · rw [if_neg ha]
      exact .inl ⟨ht,ha⟩
  · rintro (⟨hu,ha⟩ | ⟨t,ht,ha,rfl⟩)
    · exact ⟨u,hu,if_neg ha⟩
    · exact ⟨t,ht,if_pos ha⟩

/-- The line of one ticket. -/
def single (t : Ticket α) : Line α :=
  ⟨[t],List.nodup_singleton t.agent,List.pairwise_singleton _ t⟩

theorem request_free (a : α) (mode : Mode) :
    free.request a mode = some (single ⟨a,mode,.waiting⟩) := by
  simp [request,free,agents,single]

theorem enter_single (a : α) (mode : Mode) :
    (single ⟨a,mode,.waiting⟩).enter a = some (single ⟨a,mode,.entered⟩) := by
  have hadmit : (single ⟨a,mode,.waiting⟩).Admits a := by
    simp [single,Admits,At,ahead]
  rw [enter,dif_pos hadmit]
  simp [single,mark,Ticket.move]

theorem finish_single (a : α) (mode : Mode) :
    (single ⟨a,mode,.entered⟩).finish a = some (single ⟨a,mode,.leaving⟩) := by
  have hat : (single ⟨a,mode,.entered⟩).At .entered a := by
    simp [single,At]
  rw [finish,dif_pos hat]
  simp [single,mark,Ticket.move]

theorem leave_single (a : α) (mode : Mode) :
    (single ⟨a,mode,.leaving⟩).leave a = some free := by
  have hat : (single ⟨a,mode,.leaving⟩).At .leaving a := by
    simp [single,At]
  rw [leave,if_pos hat]
  simp [single,forget,free]

omit [DecidableEq α] in
theorem forget_free (gone : α → Bool) : free.forget gone = free := rfl

omit [DecidableEq α] in
theorem forget_single (t : Ticket α) (gone : α → Bool) :
    (single t).forget gone = if gone t.agent then free else single t := by
  cases h : gone t.agent <;> simp [single,forget,free,h]

/-- The agent `a` waits in the line, and `b` is ahead and keeps it out. -/
def Behind (l : Line α) (a b : α) : Prop :=
  ∃ t ∈ l.tickets, t.agent = a ∧ t.stage = .waiting ∧ ∃ s ∈ l.ahead a, s.agent = b ∧ ¬ s.LetsIn t

/-- Who waits can enter, or is kept out by somebody ahead. -/
theorem enter_or_behind {l : Line α} {a : α} (h : l.At .waiting a) :
    (∃ l', l.enter a = some l') ∨ ∃ b, l.Behind a b := by
  by_cases hadmit : l.Admits a
  · exact .inl ⟨_,dif_pos hadmit⟩
  · right
    have hblocked : ∃ t ∈ l.tickets, t.agent = a ∧ ∃ s ∈ l.ahead a, ¬ s.LetsIn t := by
      by_contra hnone
      push Not at hnone
      exact hadmit ⟨h,hnone⟩
    obtain ⟨t,ht,rfl,s,hs,hlets⟩ := hblocked
    obtain ⟨t',ht',hagent,hstage⟩ := h
    obtain rfl := eq_of_agent_eq ht' ht hagent
    exact ⟨s.agent,t',ht,rfl,hstage,s,hs,rfl,hlets⟩

end Line

/-- What is ahead in a list has fewer ahead of itself. -/
theorem length_takeWhile_lt {α κ : Type} [DecidableEq κ] (key : α → κ) {k : κ} {x : α} {l : List α}
    (h : x ∈ l.takeWhile (fun y => key y ≠ k)) :
    (l.takeWhile (fun y => key y ≠ key x)).length < (l.takeWhile (fun y => key y ≠ k)).length := by
  induction l with
  | nil => simp at h
  | cons y l ih =>
    by_cases hy : key y = k
    · simp [hy] at h
    · have hcons : (y::l).takeWhile (fun y => key y ≠ k) = y::l.takeWhile (fun y => key y ≠ k) :=
        List.takeWhile_cons_of_pos (by simpa using hy)
      rw [hcons] at h ⊢
      by_cases hx : key y = key x
      · simp [hx]
      · rw [List.takeWhile_cons_of_pos (by simpa using hx)]
        rcases List.mem_cons.mp h with rfl | h
        · exact absurd rfl hx
        · simpa using ih h

namespace Line

variable {α : Type} [DecidableEq α]

/-- How many are ahead of an agent. -/
def place (l : Line α) (a : α) : ℕ := (l.ahead a).length

theorem Behind.place_lt {l : Line α} {a b : α} (h : l.Behind a b) : l.place b < l.place a := by
  obtain ⟨-,-,-,-,s,hs,rfl,-⟩ := h
  exact length_takeWhile_lt Ticket.agent hs

theorem Behind.mem {l : Line α} {a b : α} (h : l.Behind a b) : b ∈ l.agents := by
  obtain ⟨-,-,-,-,s,hs,rfl,-⟩ := h
  exact List.mem_map_of_mem (List.takeWhile_subset _ hs)

theorem Behind.waiting {l : Line α} {a b : α} (h : l.Behind a b) : l.At .waiting a := by
  obtain ⟨t,ht,hagent,hstage,-⟩ := h
  exact ⟨t,ht,hagent,hstage⟩

end Line

section WaitFor

variable {β ω : Type} [Preorder ω] [WellFoundedLT ω] {waits : β → β → Prop} {rank : β → ω}

omit [WellFoundedLT ω] in
/-- Ranks that fall along the relation leave no cycle in it. -/
theorem acyclic_of_rank (hrank : ∀ x y, waits x y → rank y < rank x) (x : β) :
    ¬ Relation.TransGen waits x x := by
  have hfall {x y : β} (h : Relation.TransGen waits x y) : rank y < rank x := by
    induction h with
    | single h => exact hrank _ _ h
    | tail _ h ih => exact (hrank _ _ h).trans ih
  intro h
  exact lt_irrefl _ (hfall h)

/-- Who cannot move waits for somebody who is no better off, and so on down to one who moves. -/
theorem exists_moves_of_rank {live moves : β → Prop}
    (hrank : ∀ x y, waits x y → rank y < rank x)
    (hlive : ∀ x, live x → moves x ∨ ∃ y, live y ∧ waits x y) {x : β} (hx : live x) :
    ∃ y, Relation.ReflTransGen waits x y ∧ moves y := by
  induction hr : rank x using WellFoundedLT.induction generalizing x with
  | ind r ih =>
    rcases hlive x hx with hmove | ⟨y,hy,hwait⟩
    · exact ⟨x,.refl,hmove⟩
    · obtain ⟨z,hz,hmove⟩ := ih (rank y) (hr ▸ hrank x y hwait) hy rfl
      exact ⟨z,.head hwait hz,hmove⟩

end WaitFor
end LockLine
end SodaPool
