import Mathlib.Data.Nat.Pairing
import SodaPool.Moves
import SodaPool.Retry

/-!
# Clients on their pools

Any number of requests are in flight at once, each in a loop of its own on the pool of its
client and under a policy of its own. They share nothing but the pools. A request may be
dropped at any of its awaits.
-/

namespace SodaPool

open Transition

variable {π Channel Response : Type}

namespace Clients

/-- A request: its loop, until it is dropped, the number of its current round, and on record
the addresses it has been given. -/
structure Session (Channel Response : Type) where
  loop : Option (WithRetry Response Channel)
  round : ℕ
  attempted : List IpAddr

end Clients

/-- The pools and the requests of a process. -/
structure Clients (π Channel Response : Type) where
  world : World π Channel
  session : ℕ → Clients.Session Channel Response

namespace Clients

/-- What happens next: a task of a pool moves by itself, or a request goes on. -/
inductive Act (π Channel Response : Type)
  | background (l : Label π Channel)
  | getChannel (k : ℕ) (i : Input Channel)
  | answered (k : ℕ)
  | responded (k : ℕ) (result : Except Status Response)
  | reportBroken (k : ℕ) (i : Input Channel)
  | reported (k : ℕ)
  | goOn (k : ℕ)
  | dropped (k : ℕ) (i : Input Channel)

/-- The tasks that no request takes the steps of: those of the pool, and the futures of a
forced recheck. -/
def Background : Actor → Bool
  | .task .dns | .task .doctor | .task (.future _ _) => true
  | _ => false

/-- The number of a request's call in its current round; no other call has it. -/
def call (s : Clients π Channel Response) (k : ℕ) : ℕ := Nat.pair k (s.session k).round

def start (w : World π Channel) : Clients π Channel Response := ⟨w,fun _ => ⟨some .start,0,[]⟩⟩

/-- A request after a step of its loop. -/
def Session.next (x : Session Channel Response) (loop : WithRetry Response Channel)
    (a : WithRetry.Answer Response Channel) : Session Channel Response where
  loop := some loop
  round := match loop with
    | .getChannel _ => x.round+1
    | _ => x.round
  attempted := match a with
    | .channel (some (ip,_)) => x.attempted ++ [ip]
    | _ => x.attempted

def setSession (s : Clients π Channel Response) (k : ℕ) (x : Session Channel Response) :
    Clients π Channel Response :=
  { s with session := Function.update s.session k x }

/-- The loop of a request hears an answer. -/
def advance (policy : ℕ → RetryPolicy) (checks : Bool) (s : Clients π Channel Response) (k : ℕ)
    (a : WithRetry.Answer Response Channel) : Option (Clients π Channel Response) :=
  (s.session k).loop.bind (fun p =>
    (p.step (policy k) checks a).map (fun p' => s.setSession k ((s.session k).next p' a)))

section Step

variable [DecidableEq π]

/-- A step of the world, while the requests stand still. -/
def turn (s : Clients π Channel Response) (l : Label π Channel) : Option (Clients π Channel Response) :=
  (s.world.step l).map (fun w => { s with world := w })

/-- One step of the process. The request `k` belongs to a client of the pool `pool k` and is
under the policy `policy k`. -/
def step (pool : ℕ → π) (policy : ℕ → RetryPolicy) (checks : Bool) (s : Clients π Channel Response) :
    Act π Channel Response → Option (Clients π Channel Response)
  | .background l => if Background l.actor then s.turn l else none
  | .getChannel k i =>
    match (s.session k).loop with
    | some (.getChannel _) => s.turn ⟨pool k,.get (s.call k),i⟩
    | _ => none
  | .answered k =>
    match (s.session k).loop,(s.world.pool (pool k)).get (s.call k) with
    | some (.getChannel _),.done out => s.advance policy checks k (.channel out)
    | _,_ => none
  | .responded k result => s.advance policy checks k (.response result)
  | .reportBroken k i =>
    match (s.session k).loop with
    | some (.reportBroken _ ip _ _) => s.turn ⟨pool k,.task (.report (s.call k) ip),i⟩
    | _ => none
  | .reported k =>
    match (s.session k).loop with
    | some (.reportBroken _ ip _ _) =>
      match (s.world.pool (pool k)).task (.report (s.call k) ip) with
      | .idle => s.advance policy checks k .goOn
      | _ => none
    | _ => none
  | .goOn k =>
    match (s.session k).loop with
    | some (.head _) | some (.sleep _ _) => s.advance policy checks k .goOn
    | _ => none
  | .dropped k i =>
    let gone := s.setSession k { (s.session k) with loop := none }
    match (s.session k).loop with
    | some (.getChannel _) =>
      -- before its first step the call has nothing to give back
      match (s.world.pool (pool k)).get (s.call k) with
      | .start => some gone
      | _ => gone.turn ⟨pool k,.cancel (s.call k),i⟩
    | some (.call _ _ _) | some (.reportBroken _ _ _ _) | some (.sleep _ _) => some gone
    | _ => none

/-- What a request can hear where it stands. -/
def Heard (pool : ℕ → π) (s : Clients π Channel Response) (k : ℕ) :
    WithRetry Response Channel → WithRetry.Answer Response Channel → Prop
  | .getChannel _,.channel out => (s.world.pool (pool k)).get (s.call k) = .done out
  | .call _ _ _,.response _ => True
  | .reportBroken _ ip _ _,.goOn => (s.world.pool (pool k)).task (.report (s.call k) ip) = .idle
  | .head _,.goOn | .sleep _ _,.goOn => True
  | _,_ => False

/-- What a step does: the world moves while all requests stand still, a request goes on while
the world stands still, or a request is gone. -/
inductive Goes (pool : ℕ → π) (policy : ℕ → RetryPolicy) (checks : Bool)
    (s : Clients π Channel Response) : Act π Channel Response → Clients π Channel Response → Prop
  | background {l : Label π Channel} {w : World π Channel} : Background l.actor = true →
      s.world.step l = some w → Goes pool policy checks s (.background l) { s with world := w }
  | gets {k : ℕ} {i : Input Channel} {tries : UInt8} {w : World π Channel} :
      (s.session k).loop = some (.getChannel tries) →
      s.world.step ⟨pool k,.get (s.call k),i⟩ = some w →
      Goes pool policy checks s (.getChannel k i) { s with world := w }
  | reports {k : ℕ} {i : Input Channel} {tries : UInt8} {ip : IpAddr} {e : Status} {time : RetryTime}
      {w : World π Channel} : (s.session k).loop = some (.reportBroken tries ip e time) →
      s.world.step ⟨pool k,.task (.report (s.call k) ip),i⟩ = some w →
      Goes pool policy checks s (.reportBroken k i) { s with world := w }
  | hears {x : Act π Channel Response} {k : ℕ} {p p' : WithRetry Response Channel}
      {a : WithRetry.Answer Response Channel} :
      (∀ result, a = .response result → x = .responded k result) →
      (s.session k).loop = some p → Heard pool s k p a →
      WithRetry.Goes (policy k) checks p a p' →
      Goes pool policy checks s x (s.setSession k ((s.session k).next p' a))
  | cancelled {k : ℕ} {i : Input Channel} {w : World π Channel} :
      s.world.step ⟨pool k,.cancel (s.call k),i⟩ = some w →
      Goes pool policy checks s (.dropped k i)
        ⟨w,Function.update s.session k { (s.session k) with loop := none }⟩
  | dropped {k : ℕ} {i : Input Channel} :
      Goes pool policy checks s (.dropped k i)
        (s.setSession k { (s.session k) with loop := none })

theorem turn_eq_some {s s' : Clients π Channel Response} {l : Label π Channel}
    (h : s.turn l = some s') : ∃ w, s.world.step l = some w ∧ s' = { s with world := w } := by
  obtain ⟨w,hw,rfl⟩ := Option.map_eq_some_iff.mp h
  exact ⟨w,hw,rfl⟩

omit [DecidableEq π] in
theorem advance_eq_some {policy : ℕ → RetryPolicy} {checks : Bool} {s s' : Clients π Channel Response}
    {k : ℕ} {a : WithRetry.Answer Response Channel} (h : s.advance policy checks k a = some s') :
    ∃ p p', (s.session k).loop = some p ∧ WithRetry.Goes (policy k) checks p a p' ∧
      s' = s.setSession k ((s.session k).next p' a) := by
  obtain ⟨p,hp,hnext⟩ := Option.bind_eq_some_iff.mp h
  obtain ⟨p',hp',rfl⟩ := Option.map_eq_some_iff.mp hnext
  exact ⟨p,p',hp,WithRetry.goes_of_step hp',rfl⟩

theorem goes_of_step {pool : ℕ → π} {policy : ℕ → RetryPolicy} {checks : Bool}
    {s s' : Clients π Channel Response} {x : Act π Channel Response}
    (h : s.step pool policy checks x = some s') : Goes pool policy checks s x s' := by
  have hhears {k : ℕ} {p : WithRetry Response Channel} {a : WithRetry.Answer Response Channel}
      (hx : ∀ result, a = .response result → x = .responded k result)
      (hp : (s.session k).loop = some p) (hheard : Heard pool s k p a)
      (h : s.advance policy checks k a = some s') : Goes pool policy checks s x s' := by
    obtain ⟨p₀,p',hp₀,hgoes,rfl⟩ := advance_eq_some h
    obtain rfl : p = p₀ := Option.some.inj (hp.symm.trans hp₀)
    exact .hears hx hp hheard hgoes
  cases x with
  | background l =>
    simp only [step,Option.ite_none_right_eq_some] at h
    obtain ⟨w,hw,rfl⟩ := turn_eq_some h.2
    exact .background h.1 hw
  | getChannel k i =>
    simp only [step] at h
    split at h
    · rename_i tries hloop
      obtain ⟨w,hw,rfl⟩ := turn_eq_some h
      exact .gets hloop hw
    · cases h
  | answered k =>
    simp only [step] at h
    split at h
    · rename_i tries out hloop hout
      exact hhears (by simp) hloop (a := .channel out) hout h
    · cases h
  | responded k result =>
    obtain ⟨p,p',hp,hgoes,rfl⟩ := advance_eq_some h
    refine .hears (fun _ hr => by cases hr; rfl) hp ?_ hgoes
    cases hgoes <;> trivial
  | reportBroken k i =>
    simp only [step] at h
    split at h
    · rename_i tries ip e time hloop
      obtain ⟨w,hw,rfl⟩ := turn_eq_some h
      exact .reports hloop hw
    · cases h
  | reported k =>
    simp only [step] at h
    split at h
    · rename_i tries ip e time hloop
      split at h
      · rename_i hidle
        exact hhears (by simp) hloop (a := .goOn) hidle h
      · cases h
    · cases h
  | goOn k =>
    simp only [step] at h
    split at h
    · rename_i tries hloop
      exact hhears (by simp) hloop (a := .goOn) trivial h
    · rename_i tries duration hloop
      exact hhears (by simp) hloop (a := .goOn) trivial h
    · cases h
  | dropped k i =>
    simp only [step] at h
    split at h
    · split at h
      · cases h
        exact .dropped
      · obtain ⟨w,hw,rfl⟩ := turn_eq_some h
        exact .cancelled hw
    all_goals cases h
    all_goals exact .dropped

/-- What a step shows of the world. -/
theorem Goes.world {pool : ℕ → π} {policy : ℕ → RetryPolicy} {checks : Bool}
    {s s' : Clients π Channel Response} {x : Act π Channel Response}
    (h : Goes pool policy checks s x s') :
    s'.world = s.world ∨ ∃ l, s.world.step l = some s'.world := by
  cases h with
  | background _ hw | gets _ hw | reports _ hw | cancelled hw => exact .inr ⟨_,hw⟩
  | hears | dropped => exact .inl rfl

/-- What a step is to one of the requests: it stands still, is gone, or hears an answer. -/
inductive Fares (pool : ℕ → π) (policy : ℕ → RetryPolicy) (checks : Bool)
    (s : Clients π Channel Response) (x : Act π Channel Response) (k : ℕ) :
    Session Channel Response → Prop
  | still : Fares pool policy checks s x k (s.session k)
  | gone : Fares pool policy checks s x k { (s.session k) with loop := none }
  | hears {p p' : WithRetry Response Channel} {a : WithRetry.Answer Response Channel} :
      (∀ result, a = .response result → x = .responded k result) →
      (s.session k).loop = some p → Heard pool s k p a →
      WithRetry.Goes (policy k) checks p a p' →
      Fares pool policy checks s x k ((s.session k).next p' a)

theorem Goes.fares {pool : ℕ → π} {policy : ℕ → RetryPolicy} {checks : Bool}
    {s s' : Clients π Channel Response} {x : Act π Channel Response}
    (h : Goes pool policy checks s x s') (k : ℕ) :
    Fares pool policy checks s x k (s'.session k) := by
  have hupdate {j : ℕ} {y : Session Channel Response}
      (hy : k = j → Fares pool policy checks s x k y) :
      Fares pool policy checks s x k (Function.update s.session j y k) := by
    by_cases hj : k = j
    · rw [hj,Function.update_self,← hj]
      exact hy hj
    · rw [Function.update_of_ne hj]
      exact .still
  cases h with
  | background | gets | reports => exact .still
  | cancelled | dropped =>
    apply hupdate
    rintro rfl
    exact .gone
  | hears hx hp hheard hgoes =>
    apply hupdate
    rintro rfl
    exact .hears hx hp hheard hgoes

/-- The clients only ever do to the pools what a world allows: a run of the process is a run
of its pools. -/
theorem world_of_run {pool : ℕ → π} {policy : ℕ → RetryPolicy} {checks : Bool}
    {s u : Clients π Channel Response} {xs : List (Act π Channel Response)}
    (hr : run (step pool policy checks) s xs = some u) :
    ∃ ls, run World.step s.world ls = some u.world := by
  obtain ⟨ls,-,hls⟩ := exists_image_run World.step (f := Clients.world) (P := fun _ => True)
    (fun s x t h => (goes_of_step h).world.imp_right (fun ⟨l,hl⟩ => ⟨l,trivial,hl⟩)) hr
  exact ⟨ls,hls⟩

end Step

end Clients
end SodaPool
