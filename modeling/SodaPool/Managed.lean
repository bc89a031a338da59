import SodaPool.Moves
import SodaPool.RefCount

/-!
# Pools and their background tasks

A pool starts its two tasks when it is built and stops them when the last copy of it is
dropped: the handle of each is behind a reference count, and its destructor aborts the task.
A task that is aborted may take some more steps before it stops, and one that panics is gone.
A call or a report borrows the copy it is made on. The task that looks the domain up waits for
a tick of its interval between two look-ups. Time is one clock.
-/

namespace SodaPool

open Transition

variable {π Channel : Type}

/-- A background task, and its handle: to abort the task is the destructor of the handle. On
record is whether the task has panicked. -/
structure Spawned where
  handle : Arc
  running : Bool
  panicked : Bool

namespace Spawned

def new : Spawned := ⟨Arc.new,true,false⟩

def clone (s : Spawned) : Spawned := { s with handle := s.handle.clone }

def drop (s : Spawned) : Spawned := { s with handle := s.handle.drop }

/-- The runtime drops a task that has been aborted. -/
def reap (s : Spawned) : Option Spawned :=
  if s.running ∧ 0 < s.handle.dropped then some { s with running := false } else none

/-- A panic ends a task: `interval` of nothing does, `build` of an endpoint may, and with
overflow checks a failure count. When a task panics is left open. -/
def panic (s : Spawned) : Option Spawned :=
  if s.running then some { s with running := false, panicked := true } else none

end Spawned

/-- What is done with a copy of a pool. -/
inductive Use
  | get (call : ℕ)
  | report (call : ℕ) (ip : IpAddr)
  deriving DecidableEq

namespace Use

/-- The call or the report that takes a step. A background task is neither. -/
def of : Actor → Option Use
  | .task .dns => none
  | .task .doctor => none
  | .task (.report call ip) => some (.report call ip)
  | .task (.future call _) => some (.get call)
  | .get call => some (.get call)
  | .cancel call => some (.get call)

/-- It has not begun. -/
def Fresh (p : Pool Channel) : Use → Prop
  | .get call =>
    match p.get call with
    | .start => True
    | _ => False
  | .report call ip =>
    match p.task (.report call ip) with
    | .report (.remove _) => True
    | _ => False

instance (p : Pool Channel) (u : Use) : Decidable (u.Fresh p) := by
  unfold Fresh
  split <;> split <;> infer_instance

/-- Its future is gone or can go. Where a call can be dropped, a step of it says so; the
future of a report is dropped wherever it stands. -/
def Over (p : Pool Channel) : Use → Prop
  | .get call => (p.get call).Ended
  | .report _ _ => True

instance (p : Pool Channel) (u : Use) : Decidable (u.Over p) := by
  unfold Over GetChannel.Ended
  split
  · split <;> infer_instance
  · infer_instance

end Use

/-- What a `ManagedChannelPool` owns beside the two lists. Copies go by numbers; a copy that is
being dropped has lost its handle of the first task before it loses that of the second. On
record are the clock at which the pool was built and which copy a call or a report borrows. -/
structure Home where
  since : ℕ
  dnsInterval : ℕ
  /-- The next tick, once the interval has been made. -/
  tick : Option ℕ
  copies : List ℕ
  dropping : List ℕ
  uses : List (Use × ℕ)
  dns : Spawned
  doctor : Spawned

/-- The pools of a process, as far as they are built. -/
structure Managed (π Channel : Type) where
  world : World π Channel
  home : π → Option Home

namespace Home

def build (now dnsInterval copy : ℕ) : Home :=
  ⟨now,dnsInterval,none,[copy],[],[],Spawned.new,Spawned.new⟩

def clone (h : Home) (copy copy' : ℕ) : Option Home :=
  if copy ∈ h.copies ∧ copy' ∉ h.copies ∧ copy' ∉ h.dropping then
    some { h with copies := copy'::h.copies, dns := h.dns.clone, doctor := h.doctor.clone }
  else none

/-- The fields are dropped in their order. A copy that is borrowed is not dropped. -/
def drop (h : Home) (copy : ℕ) : Option Home :=
  if copy ∈ h.copies ∧ copy ∉ h.uses.map Prod.snd then
    some { h with
      copies := h.copies.erase copy, dropping := copy::h.dropping, dns := h.dns.drop }
  else if copy ∈ h.dropping then
    some { h with dropping := h.dropping.erase copy, doctor := h.doctor.drop }
  else none

/-- A call or a report is made on a copy. -/
def borrow (h : Home) (p : Pool Channel) (u : Use) (copy : ℕ) : Option Home :=
  if copy ∈ h.copies ∧ u ∉ h.uses.map Prod.fst ∧ u.Fresh p then
    some { h with uses := (u,copy)::h.uses }
  else none

/-- The copy is given back. -/
def giveBack (h : Home) (p : Pool Channel) (u : Use) : Option Home :=
  if u.Over p then some { h with uses := h.uses.filter (fun b => b.1 ≠ u) } else none

/-- `interval(..)` and `tick()`: the first tick is at once, and a missed one is caught up on. The
first look-up waits for no tick, but an interval of nothing panics before it. -/
def lookUp (h : Home) (now : ℕ) : Option Home :=
  match h.tick with
  | none => if h.dnsInterval = 0 then none else some { h with tick := some now }
  | some deadline =>
    if deadline ≤ now then some { h with tick := some (deadline+h.dnsInterval) } else none

/-- The step is a look-up of the task that looks the domain up. -/
def LooksUp (p : Pool Channel) : Actor → Bool
  | .task .dns =>
    match p.task .dns with
    | .checkDns .resolve => true
    | _ => false
  | _ => false

/-- Whether a step can be taken: a task has to run, and a call or a report needs its copy. -/
def act (h : Home) (p : Pool Channel) (actor : Actor) (now : ℕ) : Option Home :=
  match actor with
  | .task .dns =>
    if h.dns.running then if LooksUp p actor then h.lookUp now else some h else none
  | .task .doctor => if h.doctor.running then some h else none
  | _ => if (Use.of actor).all (· ∈ h.uses.map Prod.fst) then some h else none

def reap (h : Home) : TaskId → Option Home
  | .dns => h.dns.reap.map (fun s => { h with dns := s })
  | .doctor => h.doctor.reap.map (fun s => { h with doctor := s })
  | _ => none

def panic (h : Home) : TaskId → Option Home
  | .dns => h.dns.panic.map (fun s => { h with dns := s })
  | .doctor => h.doctor.panic.map (fun s => { h with doctor := s })
  | _ => none

/-- What changes the home of a pool beside its own steps. -/
inductive Turn
  | clone (copy copy' : ℕ)
  | drop (copy : ℕ)
  | borrow (u : Use) (copy : ℕ)
  | giveBack (u : Use)
  | reap (id : TaskId)
  | panic (id : TaskId)

def turn (h : Home) (p : Pool Channel) : Turn → Option Home
  | .clone copy copy' => h.clone copy copy'
  | .drop copy => h.drop copy
  | .borrow u copy => h.borrow p u copy
  | .giveBack u => h.giveBack p u
  | .reap id => h.reap id
  | .panic id => h.panic id

/-- What becomes of a home in a turn. -/
inductive Turns (h : Home) (p : Pool Channel) : Turn → Home → Prop
  | clone {copy copy' : ℕ} : copy ∈ h.copies → copy' ∉ h.copies → copy' ∉ h.dropping →
      Turns h p (.clone copy copy')
        { h with copies := copy'::h.copies, dns := h.dns.clone, doctor := h.doctor.clone }
  | dropDns {copy : ℕ} : copy ∈ h.copies → copy ∉ h.uses.map Prod.snd → Turns h p (.drop copy)
      { h with
        copies := h.copies.erase copy, dropping := copy::h.dropping, dns := h.dns.drop }
  | dropDoctor {copy : ℕ} : copy ∈ h.dropping → Turns h p (.drop copy)
      { h with dropping := h.dropping.erase copy, doctor := h.doctor.drop }
  | borrow {u : Use} {copy : ℕ} : copy ∈ h.copies → u ∉ h.uses.map Prod.fst → u.Fresh p →
      Turns h p (.borrow u copy) { h with uses := (u,copy)::h.uses }
  | giveBack {u : Use} : u.Over p →
      Turns h p (.giveBack u) { h with uses := h.uses.filter (fun b => b.1 ≠ u) }
  | reapDns {s : Spawned} : h.dns.reap = some s → Turns h p (.reap .dns) { h with dns := s }
  | reapDoctor {s : Spawned} : h.doctor.reap = some s →
      Turns h p (.reap .doctor) { h with doctor := s }
  | panicDns {s : Spawned} : h.dns.panic = some s → Turns h p (.panic .dns) { h with dns := s }
  | panicDoctor {s : Spawned} : h.doctor.panic = some s →
      Turns h p (.panic .doctor) { h with doctor := s }

theorem turns_of_turn {h h' : Home} {p : Pool Channel} {t : Turn} (hs : h.turn p t = some h') :
    Turns h p t h' := by
  cases t with
  | clone copy copy' =>
    simp only [turn,clone,Option.ite_none_right_eq_some,Option.some.injEq] at hs
    obtain ⟨⟨hcopy,hnew,hnot⟩,rfl⟩ := hs
    exact .clone hcopy hnew hnot
  | drop copy =>
    simp only [turn,drop] at hs
    split at hs
    · rename_i hcopy
      cases hs
      exact .dropDns hcopy.1 hcopy.2
    · simp only [Option.ite_none_right_eq_some,Option.some.injEq] at hs
      obtain ⟨hcopy,rfl⟩ := hs
      exact .dropDoctor hcopy
  | borrow u copy =>
    simp only [turn,borrow,Option.ite_none_right_eq_some,Option.some.injEq] at hs
    obtain ⟨⟨hcopy,hnot,hfresh⟩,rfl⟩ := hs
    exact .borrow hcopy hnot hfresh
  | giveBack u =>
    simp only [turn,giveBack,Option.ite_none_right_eq_some,Option.some.injEq] at hs
    obtain ⟨hover,rfl⟩ := hs
    exact .giveBack hover
  | reap id =>
    cases id with
    | dns =>
      obtain ⟨s,hreap,rfl⟩ := Option.map_eq_some_iff.mp hs
      exact .reapDns hreap
    | doctor =>
      obtain ⟨s,hreap,rfl⟩ := Option.map_eq_some_iff.mp hs
      exact .reapDoctor hreap
    | report call ip => cases hs
    | future call number => cases hs
  | panic id =>
    cases id with
    | dns =>
      obtain ⟨s,hpanic,rfl⟩ := Option.map_eq_some_iff.mp hs
      exact .panicDns hpanic
    | doctor =>
      obtain ⟨s,hpanic,rfl⟩ := Option.map_eq_some_iff.mp hs
      exact .panicDoctor hpanic
    | report call ip => cases hs
    | future call number => cases hs

theorem lookUp_eq_some {h h' : Home} {now : ℕ} (hs : h.lookUp now = some h') :
    h.tick = none ∧ h.dnsInterval ≠ 0 ∧ h' = { h with tick := some now } ∨
      ∃ deadline, h.tick = some deadline ∧ deadline ≤ now ∧
        h' = { h with tick := some (deadline+h.dnsInterval) } := by
  unfold lookUp at hs
  split at hs
  · rename_i htick
    simp only [Option.ite_none_left_eq_some,Option.some.injEq] at hs
    exact .inl ⟨htick,hs.1,hs.2.symm⟩
  · rename_i deadline htick
    simp only [Option.ite_none_right_eq_some,Option.some.injEq] at hs
    exact .inr ⟨deadline,htick,hs.1,hs.2.symm⟩

/-- Who may take a step: a background task that is there, or a call or a report with a copy. -/
def Allowed (h : Home) (actor : Actor) : Prop :=
  (actor = .task .dns → h.dns.running = true) ∧ (actor = .task .doctor → h.doctor.running = true) ∧
    ∀ u, Use.of actor = some u → u ∈ h.uses.map Prod.fst

theorem act_eq_some {h h' : Home} {p : Pool Channel} {actor : Actor} {now : ℕ}
    (hs : h.act p actor now = some h') : Allowed h actor ∧
      if LooksUp p actor then h.lookUp now = some h' else h' = h := by
  unfold act at hs
  split at hs
  · simp only [Option.ite_none_right_eq_some] at hs
    obtain ⟨hrun,hs⟩ := hs
    refine ⟨⟨fun _ => hrun,by simp,by simp [Use.of]⟩,?_⟩
    split at hs
    · simp [*]
    · cases hs
      simp [*]
  · simp only [Option.ite_none_right_eq_some,Option.some.injEq] at hs
    obtain ⟨hrun,rfl⟩ := hs
    exact ⟨⟨by simp,fun _ => hrun,by simp [Use.of]⟩,by simp [LooksUp]⟩
  · rename_i hdns hdoctor
    simp only [Option.ite_none_right_eq_some,Option.some.injEq] at hs
    obtain ⟨hused,rfl⟩ := hs
    have hlook : LooksUp p actor = false := by
      unfold LooksUp
      split
      · exact absurd rfl hdns
      · rfl
    rw [hlook,if_neg (by decide)]
    refine ⟨⟨fun h => absurd h hdns,fun h => absurd h hdoctor,fun u hu => ?_⟩,rfl⟩
    simpa [hu] using hused

/-- A step changes nothing of the home but the tick. -/
theorem act_home {h h' : Home} {p : Pool Channel} {actor : Actor} {now : ℕ}
    (hs : h.act p actor now = some h') : ∃ tick, h' = { h with tick := tick } := by
  have hlook := (act_eq_some hs).2
  split at hlook
  · obtain ⟨-,-,rfl⟩ | ⟨deadline,-,-,rfl⟩ := lookUp_eq_some hlook
    · exact ⟨_,rfl⟩
    · exact ⟨_,rfl⟩
  · exact ⟨h.tick,by rw [hlook]⟩

end Home

namespace Managed

inductive Event (π Channel : Type)
  | build (q : π) (copy dnsInterval : ℕ)
  | turn (q : π) (t : Home.Turn)
  | act (l : Label π Channel)

def start (w : World π Channel) : Managed π Channel := ⟨w,fun _ => none⟩

variable [DecidableEq π]

def setHome (m : Managed π Channel) (q : π) (h : Home) : Managed π Channel :=
  { m with home := Function.update m.home q (some h) }

def step (m : Managed π Channel) : Event π Channel → Option (Managed π Channel)
  | .build q copy dnsInterval =>
    match m.home q with
    | some _ => none
    | none => some (m.setHome q (Home.build m.world.clock dnsInterval copy))
  | .turn q t => (m.home q).bind (fun h => (h.turn (m.world.pool q) t).map (m.setHome q))
  | .act l => (m.home l.pool).bind (fun h =>
      (h.act (m.world.pool l.pool) l.actor l.input.now).bind (fun h' =>
        (m.world.step l).map (fun w => { m with world := w }.setHome l.pool h')))

/-- A pool is built, its home changes while the lists stand still, or a step of the world is
taken. -/
inductive Goes (m : Managed π Channel) : Event π Channel → Managed π Channel → Prop
  | build {q : π} {copy dnsInterval : ℕ} : m.home q = none → Goes m (.build q copy dnsInterval)
      (m.setHome q (Home.build m.world.clock dnsInterval copy))
  | turn {q : π} {t : Home.Turn} {h h' : Home} : m.home q = some h →
      h.turn (m.world.pool q) t = some h' → Goes m (.turn q t) (m.setHome q h')
  | act {l : Label π Channel} {h h' : Home} {w : World π Channel} : m.home l.pool = some h →
      h.act (m.world.pool l.pool) l.actor l.input.now = some h' → m.world.step l = some w →
      Goes m (.act l) ({ m with world := w }.setHome l.pool h')

theorem goes_of_step {m m' : Managed π Channel} {e : Event π Channel} (h : m.step e = some m') :
    Goes m e m' := by
  cases e with
  | build q copy dnsInterval =>
    simp only [step] at h
    split at h
    · cases h
    · rename_i hnone
      cases h
      exact .build hnone
  | turn q t =>
    obtain ⟨home,hhome,h⟩ := Option.bind_eq_some_iff.mp h
    obtain ⟨home',hhome',rfl⟩ := Option.map_eq_some_iff.mp h
    exact .turn hhome hhome'
  | act l =>
    obtain ⟨home,hhome,h⟩ := Option.bind_eq_some_iff.mp h
    obtain ⟨home',hhome',h⟩ := Option.bind_eq_some_iff.mp h
    obtain ⟨w,hw,rfl⟩ := Option.map_eq_some_iff.mp h
    exact .act hhome hhome' hw

/-- What a step is to a pool that is built after it. -/
inductive Becomes (m : Managed π Channel) (q : π) (m' : Managed π Channel) (home' : Home) :
    Event π Channel → Prop
  | other {e : Event π Channel} : (∀ l, e = .act l → l.pool ≠ q) → m.home q = some home' →
      m'.world.pool q = m.world.pool q → m.world.clock ≤ m'.world.clock → Becomes m q m' home' e
  | build {copy dnsInterval : ℕ} : m.home q = none → m'.world = m.world →
      home' = Home.build m.world.clock dnsInterval copy →
      Becomes m q m' home' (.build q copy dnsInterval)
  | turn {t : Home.Turn} {home : Home} : m.home q = some home → m'.world = m.world →
      home.turn (m.world.pool q) t = some home' → Becomes m q m' home' (.turn q t)
  | act {l : Label π Channel} {home : Home} : l.pool = q → m.home q = some home →
      home.act (m.world.pool q) l.actor l.input.now = some home' →
      m.world.clock ≤ l.input.now → m'.world.clock = l.input.now →
      (m.world.pool q).Move l.actor l.input (m'.world.pool q) → Becomes m q m' home' (.act l)

theorem setHome_self {m : Managed π Channel} {q : π} {h home' : Home}
    (hhome : (m.setHome q h).home q = some home') : home' = h := by
  simpa [setHome,eq_comm] using hhome

theorem setHome_of_ne {m : Managed π Channel} {q q' : π} (hq : q ≠ q') (h : Home) :
    (m.setHome q' h).home q = m.home q :=
  Function.update_of_ne hq ..

theorem becomes_of_step {m m' : Managed π Channel} {e : Event π Channel} {q : π} {home' : Home}
    (h : m.step e = some m') (hhome : m'.home q = some home') : Becomes m q m' home' e := by
  cases goes_of_step h with
  | @build q' copy dnsInterval hnone =>
    by_cases hq : q = q'
    · subst hq
      exact .build hnone rfl (setHome_self hhome)
    · exact .other (by simp) (setHome_of_ne hq _ ▸ hhome) rfl (le_refl _)
  | @turn q' t home home' hold hturn =>
    by_cases hq : q = q'
    · subst hq
      obtain rfl := setHome_self hhome
      exact .turn hold rfl hturn
    · exact .other (by simp) (setHome_of_ne hq _ ▸ hhome) rfl (le_refl _)
  | @act l home home' w hold hact hw =>
    obtain ⟨hle,hnow,hm,hother⟩ := World.step_move hw
    by_cases hq : q = l.pool
    · subst hq
      obtain rfl := setHome_self hhome
      exact .act rfl hold hact hle hnow hm
    · rw [setHome_of_ne hq] at hhome
      exact .other (by simpa using fun h => hq h.symm) hhome (hother q hq) (hnow ▸ hle)

/-- A pool that is not built stands still. -/
theorem home_eq_none {m m' : Managed π Channel} {e : Event π Channel} {q : π}
    (h : m.step e = some m') (hhome : m'.home q = none) :
    m.home q = none ∧ m'.world.pool q = m.world.pool q := by
  have hne {m₁ : Managed π Channel} {q' : π} {home : Home}
      (hnone : (m₁.setHome q' home).home q = none) : q ≠ q' := by
    rintro rfl
    simp [setHome] at hnone
  cases goes_of_step h with
  | build => exact ⟨setHome_of_ne (hne hhome) _ ▸ hhome,rfl⟩
  | turn => exact ⟨setHome_of_ne (hne hhome) _ ▸ hhome,rfl⟩
  | act hold hact hw =>
    have hq := hne hhome
    obtain ⟨-,-,-,hother⟩ := World.step_move hw
    exact ⟨setHome_of_ne hq _ ▸ hhome,hother q hq⟩

/-- To the world every step is one of its own or nothing. -/
theorem world_of_step {m m' : Managed π Channel} {e : Event π Channel} (h : m.step e = some m') :
    m'.world = m.world ∨ ∃ l, True ∧ m.world.step l = some m'.world := by
  cases goes_of_step h with
  | build => exact .inl rfl
  | turn => exact .inl rfl
  | act _ _ hw => exact .inr ⟨_,trivial,hw⟩

/-- The pools run as they do when nothing is dropped. -/
theorem world_of_run {m m' : Managed π Channel} {es : List (Event π Channel)}
    (hr : run step m es = some m') : ∃ ls, run World.step m.world ls = some m'.world := by
  obtain ⟨ls,-,hls⟩ := exists_image_run World.step (fun _ _ _ => world_of_step) hr
  exact ⟨ls,hls⟩

end Managed
end SodaPool
