import SodaPool.LoneCall
import SodaPool.Retry

/-!
# A request that exhausts the pool

Under `DefaultRetryPolicy` a request has no bound on its attempts. What ends it is the
ready list: every attempt that fails in the client library is reported, and the report takes
one entry out. The last call of `get_channel` makes a forced recheck, unless one was made
just before, and comes back with nothing.
-/

namespace SodaPool
namespace Exhaustion

open Containers Transition FairLock LoneCall

variable {π Channel Response : Type}

/-- What a request has done, on record: its attempts, and how many entries each report has
taken out of the ready list. -/
inductive Event
  | attempted (ip : IpAddr)
  | reported (ip : IpAddr) (removed : ℕ)
  deriving DecidableEq

/-- A request alone on its pool. Its calls of the pool are numbered. -/
structure Request (π Channel Response : Type) where
  world : World π Channel
  loop : WithRetry Response Channel
  calls : ℕ
  log : List Event

/-- The loop goes on, the pool works for it, `get_channel` has returned, an attempt has
failed, or `report_broken` has returned. -/
inductive Act (Channel : Type)
  | goOn
  | pool (actor : Actor) (input : Input Channel)
  | answered
  | failed (e : Status)
  | reported

namespace Request

def start (w : World π Channel) (calls : ℕ) : Request π Channel Response := ⟨w,.start,calls,[]⟩

/-- The tasks of the pool that work for the loop. -/
def works (s : Request π Channel Response) : Actor → Bool
  | .get call | .task (.future call _) =>
    match s.loop with
    | .getChannel _ => decide (call = s.calls)
    | _ => false
  | .task (.report call ip) =>
    match s.loop with
    | .reportBroken _ ip' _ _ => decide (call = s.calls ∧ ip = ip')
    | _ => false
  | _ => false

/-- The record of a step from `p` to `p'` in which a report takes an entry out. -/
def record (p p' : Pool Channel) : Actor → List Event
  | .task (.report call ip) =>
    match p.task (.report call ip) with
    | .report (.remove _) =>
      [.reported ip (p.lists.ready.channels.length - p'.lists.ready.channels.length)]
    | _ => []
  | _ => []

/-- The loop's own step. -/
def advance (s : Request π Channel Response) (answer : WithRetry.Answer Response Channel) :
    Option (Request π Channel Response) :=
  (s.loop.step defaultRetryPolicy false answer).map (fun loop => { s with loop := loop })

variable [DecidableEq π]

/-- Every attempt fails in the client library, and every connection of a forced recheck
fails as well. -/
def step (q : π) (s : Request π Channel Response) : Act Channel → Option (Request π Channel Response)
  | .goOn =>
    match s.loop with
    | .head _ | .sleep _ _ => s.advance .goOn
    | _ => none
  | .pool actor input =>
    if s.works actor && input.outcome.isNone then
      (s.world.step ⟨q,actor,input⟩).map (fun w =>
        { s with world := w, log := s.log ++ record (s.world.pool q) (w.pool q) actor })
    else none
  | .answered =>
    match s.loop,(s.world.pool q).get s.calls with
    | .getChannel _,.done out => s.advance (.channel out)
    | _,_ => none
  | .failed e =>
    match s.loop with
    | .call _ ip _ =>
      if e.source.isSome then
        Request.advance { s with log := s.log ++ [.attempted ip] } (.response (.error e))
      else none
    | _ => none
  | .reported =>
    match s.loop with
    | .reportBroken _ ip _ _ =>
      match (s.world.pool q).task (.report s.calls ip) with
      | .idle => Request.advance { s with calls := s.calls+1 } .goOn
      | _ => none
    | _ => none

end Request

section Requests

/-- No call of the pool has a number from `calls` on. -/
def Unused (p : Pool Channel) (calls : ℕ) : Prop :=
  ∀ call, calls ≤ call → p.get call = .start ∧ ∀ ip, p.task (.report call ip) = .report (.remove ip)

/-- The record of attempts each of which was followed by a report that took one entry out. -/
def accounted (order : List IpAddr) : List Event :=
  order.flatMap (fun ip => [.attempted ip,.reported ip 1])

/-- What holds at each point of the loop, when the addresses in `order` have been attempted
and reported. -/
def AtPoint (q : π) (order : List IpAddr) (s : Request π Channel Response) :
    WithRetry Response Channel → Prop
  | .head _ => s.world.recheck.lock = RwLock.free ∧ Unused (s.world.pool q) s.calls ∧
      s.log = accounted order
  | .getChannel _ => Fetching (q,s.calls) s.world.recheck (s.world.pool q) ∧
      (∀ ip, (s.world.pool q).task (.report s.calls ip) = .report (.remove ip)) ∧
      s.log = accounted order
  | .call _ ip _ => s.world.recheck.lock = RwLock.free ∧
      (s.world.pool q).task (.report s.calls ip) = .report (.remove ip) ∧
      ip ∈ (s.world.pool q).lists.readyIps ∧ s.log = accounted order
  | .reportBroken _ ip _ time => s.world.recheck.lock = RwLock.free ∧ time = .immediately ∧
      ((s.world.pool q).task (.report s.calls ip) = .report (.remove ip) ∧
        ip ∈ (s.world.pool q).lists.readyIps ∧ s.log = accounted order ++ [.attempted ip] ∨
      ((∃ d, (s.world.pool q).task (.report s.calls ip) = .report (.insert d)) ∨
        (s.world.pool q).task (.report s.calls ip) = .idle) ∧ s.log = accounted order)
  | .returned result => result = .error WithRetry.noReadyChannels ∧
      (s.world.pool q).lists.ready.channels = [] ∧ s.log = accounted order
  | .sleep _ _ | .panicked => False

/-- The invariant of a request that began with the addresses `ips` ready. -/
structure Sound (q : π) (ips : List IpAddr) (s : Request π Channel Response) : Prop where
  orderly : (s.world.pool q).Orderly
  unused : Unused (s.world.pool q) (s.calls+1)
  point : ∃ order, (order ++ (s.world.pool q).lists.readyIps).Perm ips ∧ AtPoint q order s s.loop

/-- How much of an attempt is left, until its report takes an entry out and after that. -/
def stage (q : π) (s : Request π Channel Response) : ℕ :=
  match s.loop with
  | .head _ => 7
  | .getChannel _ => 6
  | .call _ _ _ => 5
  | .reportBroken _ ip _ _ =>
    match (s.world.pool q).task (.report s.calls ip) with
    | .report (.remove _) => 4
    | .report (.insert _) => 9
    | _ => 8
  | _ => 0

/-- The ready entries, what is left of the attempt, of the call of `get_channel`, and of its
futures. -/
def measure (q : π) (s : Request π Channel Response) : ℕ ×ₗ ℕ ×ₗ ℕ ×ₗ ℕ ×ₗ ℕ :=
  toLex ((s.world.pool q).lists.ready.channels.length,toLex (stage q s,
    toLex (12 - ((s.world.pool q).get s.calls).rank,
      toLex (total unresolved s.calls (s.world.pool q),total remaining s.calls (s.world.pool q)))))

theorem rank_le (g : GetChannel Channel) : g.rank ≤ 11 := by
  cases g <;> simp [GetChannel.rank]

/-- An entry was taken out. -/
theorem measure_lt_of_length {q : π} {s s' : Request π Channel Response}
    (h : (s'.world.pool q).lists.ready.channels.length <
      (s.world.pool q).lists.ready.channels.length) : measure q s' < measure q s :=
  Prod.Lex.toLex_lt_toLex.mpr (.inl h)

/-- The loop went on. -/
theorem measure_lt_of_stage {q : π} {s s' : Request π Channel Response}
    (hready : (s'.world.pool q).lists.ready.channels = (s.world.pool q).lists.ready.channels)
    (h : stage q s' < stage q s) : measure q s' < measure q s :=
  Prod.Lex.toLex_lt_toLex.mpr (.inr ⟨congrArg List.length hready,
    Prod.Lex.toLex_lt_toLex.mpr (.inl h)⟩)

/-- The call of `get_channel` went on. -/
theorem measure_lt_of_closer {q : π} {s s' : Request π Channel Response}
    (hready : (s'.world.pool q).lists.ready.channels = (s.world.pool q).lists.ready.channels)
    (hstage : stage q s' = stage q s) (hcalls : s'.calls = s.calls)
    (h : Closer s.calls (s.world.pool q) (s'.world.pool q)) : measure q s' < measure q s := by
  refine Prod.Lex.toLex_lt_toLex.mpr (.inr ⟨congrArg List.length hready,
    Prod.Lex.toLex_lt_toLex.mpr (.inr ⟨hstage,?_⟩)⟩)
  simp only [hcalls]
  have hrank := rank_le ((s.world.pool q).get s.calls)
  have hrank' := rank_le ((s'.world.pool q).get s.calls)
  rcases h with hlt | ⟨heq,htotal⟩
  · exact Prod.Lex.toLex_lt_toLex.mpr (.inl (by dsimp only; omega))
  · exact Prod.Lex.toLex_lt_toLex.mpr (.inr ⟨by rw [heq],Prod.Lex.toLex_lt_toLex.mpr htotal⟩)

theorem works_cases {s : Request π Channel Response} {actor : Actor} (h : s.works actor = true) :
    (∃ tries, s.loop = .getChannel tries ∧
        (actor = .get s.calls ∨ ∃ number, actor = .task (.future s.calls number))) ∨
      ∃ tries ip e time, s.loop = .reportBroken tries ip e time ∧
        actor = .task (.report s.calls ip) := by
  cases actor with
  | cancel call => cases h
  | get call =>
    cases hl : s.loop <;> simp [Request.works,hl] at h
    subst h
    exact .inl ⟨_,rfl,.inl rfl⟩
  | task id =>
    cases id with
    | dns => cases h
    | doctor => cases h
    | future call number =>
      cases hl : s.loop <;> simp [Request.works,hl] at h
      subst h
      exact .inl ⟨_,rfl,.inr ⟨number,rfl⟩⟩
    | report call ip =>
      cases hl : s.loop <;> simp [Request.works,hl] at h
      obtain ⟨rfl,rfl⟩ := h
      exact .inr ⟨_,_,_,_,rfl,rfl⟩

theorem unused_of_move {s : Request π Channel Response} {p p' : Pool Channel} {actor : Actor}
    {i : Input Channel} (hw : s.works actor = true) (hm : p.Move actor i p')
    (hu : Unused p (s.calls+1)) : Unused p' (s.calls+1) := by
  intro call hcall
  have hne : s.calls ≠ call := by omega
  have hself : ¬ actor.Serves call ∧ actor ≠ .cancel call ∧
      ∀ ip, actor ≠ .task (.report call ip) := by
    rcases works_cases hw with ⟨-,-,rfl | ⟨number,rfl⟩⟩ | ⟨-,ip,-,-,-,rfl⟩
    · exact ⟨hne,by simp,by simp⟩
    · exact ⟨hne,by simp,by simp⟩
    · exact ⟨id,by simp,by simp [hne]⟩
  obtain ⟨hserves,hcancel,hreport⟩ := hself
  refine ⟨(hm.get_of_not_serves hserves hcancel).trans (hu call hcall).1,fun ip => ?_⟩
  exact (hm.task_of_not_future (by simp) (hreport ip)).trans ((hu call hcall).2 ip)

variable [DecidableEq π]

/-- What one step has to show. -/
def Goes (q : π) (ips : List IpAddr) (s s' : Request π Channel Response) : Prop :=
  Sound q ips s' ∧ measure q s' < measure q s

/-- The call of `get_channel` goes on, by itself or with one of its futures. -/
theorem goes_getChannel {q : π} {ips : List IpAddr} {s : Request π Channel Response}
    {w : World π Channel} {actor : Actor} {i : Input Channel} {tries : UInt8}
    (hs : Sound q ips s) (hl : s.loop = .getChannel tries)
    (ha : actor = .get s.calls ∨ ∃ number, actor = .task (.future s.calls number))
    (hw : s.works actor = true) (hi : i.outcome = none) (h : s.world.step ⟨q,actor,i⟩ = some w) :
    Goes q ips s
      { s with world := w, log := s.log ++ Request.record (s.world.pool q) (w.pool q) actor } := by
  have hm : (s.world.pool q).Move actor i (w.pool q) := (World.step_move h).2.2.1
  obtain ⟨order,hperm,hpoint⟩ := hs.point
  rw [hl] at hpoint
  obtain ⟨hfetching,hreports,hlog⟩ := hpoint
  have hnew : Fetching (q,s.calls) w.recheck (w.pool q) ∧
      (w.pool q).lists.ready.channels = (s.world.pool q).lists.ready.channels ∧
      Closer s.calls (s.world.pool q) (w.pool q) ∧
      Request.record (s.world.pool q) (w.pool q) actor = [] ∧
      ∀ ip, actor ≠ .task (.report s.calls ip) := by
    rcases ha with rfl | ⟨number,rfl⟩
    · obtain ⟨hready,hrank⟩ := hm.get_progress
      exact ⟨fetching_get hfetching (World.stepGet_of_step h),hready,.inl hrank,rfl,by simp⟩
    · obtain ⟨hf,hready',hready,hcloser⟩ :=
        fetching_future hfetching hs.orderly hi hm
      rw [World.recheck_of_step h]
      exact ⟨hf,hready'.trans hready.symm,hcloser,rfl,by simp⟩
  obtain ⟨hf,hready,hcloser,hrecord,hreport⟩ := hnew
  have hips : (w.pool q).lists.readyIps = (s.world.pool q).lists.readyIps :=
    congrArg (List.map Prod.fst) hready
  constructor
  · refine ⟨hm.orderly hs.orderly,unused_of_move hw hm hs.unused,order,?_,?_⟩
    · rw [hips]
      exact hperm
    · simp only [AtPoint,hl,hrecord,List.append_nil]
      refine ⟨hf,fun ip => ?_,hlog⟩
      exact (hm.task_of_not_future (by simp) (hreport ip)).trans (hreports ip)
  · exact measure_lt_of_closer hready (by simp [stage,hl]) rfl hcloser

/-- A report takes one entry of the address out of the ready list, then puts the address
into the heap. -/
theorem goes_report {q : π} {ips : List IpAddr} {s : Request π Channel Response}
    {w : World π Channel} {i : Input Channel} {tries : UInt8} {ip : IpAddr} {e : Status}
    {time : RetryTime} (hs : Sound q ips s) (hl : s.loop = .reportBroken tries ip e time)
    (hw : s.works (.task (.report s.calls ip)) = true)
    (h : s.world.step ⟨q,.task (.report s.calls ip),i⟩ = some w) :
    Goes q ips s { s with
      world := w
      log := s.log ++ Request.record (s.world.pool q) (w.pool q) (.task (.report s.calls ip)) } := by
  have hm : (s.world.pool q).Move (.task (.report s.calls ip)) i (w.pool q) :=
    (World.step_move h).2.2.1
  have hlock := World.recheck_of_step h
  have horderly := hm.orderly hs.orderly
  have hunused := unused_of_move hw hm hs.unused
  obtain ⟨order,hperm,hpoint⟩ := hs.point
  rw [hl] at hpoint
  obtain ⟨hfree,rfl,⟨htask,hmem,hlog⟩ | ⟨⟨d,htask⟩ | htask,hlog⟩⟩ := hpoint
  · have hstep := hm.task_self (by simp [htask])
    simp only [htask,Task.step,Report.step,Option.map_some,Option.getD_some,Option.some.injEq,
      Prod.mk.injEq] at hstep
    obtain ⟨hlists,htask'⟩ := hstep
    have hready : (w.pool q).lists.ready.channels =
        removeFirst Prod.fst ip (s.world.pool q).lists.ready.channels := by
      rw [← hlists]
      rfl
    have htaken := cons_keys_removeFirst_perm Prod.fst hmem
    rw [← hready] at htaken
    have hlength : (w.pool q).lists.ready.channels.length + 1 =
        (s.world.pool q).lists.ready.channels.length := by
      simpa using htaken.length_eq
    constructor
    · refine ⟨horderly,hunused,order ++ [ip],?_,?_⟩
      · rw [List.append_assoc]
        exact (htaken.append_left order).trans hperm
      · simp only [AtPoint,hl]
        refine ⟨hlock ▸ hfree,trivial,.inr ⟨.inl ⟨_,htask'.symm⟩,?_⟩⟩
        rw [hlog,Request.record,htask,← hlength]
        simp [accounted]
    · exact measure_lt_of_length (by dsimp only; omega)
  · have hstep := hm.task_self (by simp [htask])
    simp only [htask,Task.step,Report.step,Option.map_none,Option.getD_none,Option.some.injEq,
      Prod.mk.injEq] at hstep
    obtain ⟨hlists,htask'⟩ := hstep
    have hready : (w.pool q).lists.ready = (s.world.pool q).lists.ready := by rw [← hlists]
    have hidle : (w.pool q).task (.report s.calls ip) = .idle := htask'.symm
    constructor
    · refine ⟨horderly,hunused,order,?_,?_⟩
      · rw [Lists.readyIps,hready]
        exact hperm
      · simp only [AtPoint,hl]
        refine ⟨hlock ▸ hfree,trivial,.inr ⟨.inr hidle,?_⟩⟩
        rw [Request.record,htask,List.append_nil]
        exact hlog
    · exact measure_lt_of_stage (congrArg ReadyChannels.channels hready)
        (by simp [stage,hl,htask,hidle])
  · have hstep := hm.task_self (by simp [htask])
    simp [htask,Task.step] at hstep

omit [DecidableEq π] in
/-- The loop goes on by itself, to ask for a channel. -/
theorem goes_goOn {q : π} {ips : List IpAddr} {s s' : Request π Channel Response} {tries : UInt8}
    (hs : Sound q ips s) (hl : s.loop = .head tries) (h : s.advance .goOn = some s') :
    Goes q ips s s' := by
  obtain ⟨order,hperm,hpoint⟩ := hs.point
  rw [hl] at hpoint
  obtain ⟨hfree,hunused,hlog⟩ := hpoint
  have hstart := hunused s.calls (le_refl _)
  have hs' : s' = { s with loop := .getChannel (tries+1) } := by
    simpa [Request.advance,hl,WithRetry.step,WithRetry.count] using h.symm
  subst hs'
  refine ⟨⟨hs.orderly,hs.unused,order,hperm,?_⟩,measure_lt_of_stage rfl (by simp [stage,hl])⟩
  exact ⟨by simpa only [Fetching,hstart.1] using hfree,hstart.2,hlog⟩

omit [DecidableEq π] in
/-- A call of `get_channel` returns an entry of the ready list, or nothing once that is empty. -/
theorem goes_answered {q : π} {ips : List IpAddr} {s s' : Request π Channel Response}
    {tries : UInt8} {out : Option (IpAddr × Channel)} (hs : Sound q ips s)
    (hl : s.loop = .getChannel tries) (hout : (s.world.pool q).get s.calls = .done out)
    (h : s.advance (.channel out) = some s') : Goes q ips s s' := by
  obtain ⟨order,hperm,hpoint⟩ := hs.point
  rw [hl] at hpoint
  obtain ⟨hfetching,hreports,hlog⟩ := hpoint
  cases out with
  | none =>
    simp only [Fetching,hout] at hfetching
    have hs' : s' = { s with loop := .returned (.error WithRetry.noReadyChannels) } := by
      simpa [Request.advance,hl,WithRetry.step] using h.symm
    subst hs'
    exact ⟨⟨hs.orderly,hs.unused,order,hperm,rfl,hfetching.2,hlog⟩,
      measure_lt_of_stage rfl (by simp [stage,hl])⟩
  | some e =>
    obtain ⟨ip,channel⟩ := e
    simp only [Fetching,hout] at hfetching
    have hs' : s' = { s with loop := .call tries ip channel } := by
      simpa [Request.advance,hl,WithRetry.step] using h.symm
    subst hs'
    have hmem : ip ∈ (s.world.pool q).lists.readyIps := List.mem_map_of_mem hfetching.2
    exact ⟨⟨hs.orderly,hs.unused,order,hperm,hfetching.1,hreports ip,hmem,hlog⟩,
      measure_lt_of_stage rfl (by simp [stage,hl])⟩

omit [DecidableEq π] in
/-- The policy takes the server of a failed attempt for dead. -/
theorem goes_failed {q : π} {ips : List IpAddr} {s s' : Request π Channel Response}
    {tries : UInt8} {ip : IpAddr} {channel : Channel} {e : Status} (hs : Sound q ips s)
    (hl : s.loop = .call tries ip channel) (he : e.source.isSome = true)
    (h : Request.advance { s with log := s.log ++ [.attempted ip] } (.response (.error e)) = some s') :
    Goes q ips s s' := by
  obtain ⟨order,hperm,hpoint⟩ := hs.point
  rw [hl] at hpoint
  obtain ⟨hfree,hreport,hmem,hlog⟩ := hpoint
  have hs' : s' = { s with
      log := s.log ++ [.attempted ip], loop := .reportBroken tries ip e .immediately } := by
    simpa [Request.advance,hl,WithRetry.step,defaultRetryPolicy,he] using h.symm
  subst hs'
  refine ⟨⟨hs.orderly,hs.unused,order,hperm,hfree,rfl,.inl ⟨hreport,hmem,?_⟩⟩,
    measure_lt_of_stage rfl (by simp [stage,hl,hreport])⟩
  exact congrArg (· ++ [.attempted ip]) hlog

omit [DecidableEq π] in
/-- After the report the loop starts over, with the next number. -/
theorem goes_reported {q : π} {ips : List IpAddr} {s s' : Request π Channel Response}
    {tries : UInt8} {ip : IpAddr} {e : Status} {time : RetryTime} (hs : Sound q ips s)
    (hl : s.loop = .reportBroken tries ip e time)
    (hidle : (s.world.pool q).task (.report s.calls ip) = .idle)
    (h : Request.advance { s with calls := s.calls+1 } .goOn = some s') : Goes q ips s s' := by
  obtain ⟨order,hperm,hpoint⟩ := hs.point
  rw [hl] at hpoint
  obtain ⟨hfree,rfl,⟨htask,-⟩ | ⟨-,hlog⟩⟩ := hpoint
  · rw [hidle] at htask
    cases htask
  · have hs' : s' = { s with calls := s.calls+1, loop := .head tries } := by
      simpa [Request.advance,hl,WithRetry.step,WithRetry.next] using h.symm
    subst hs'
    refine ⟨⟨hs.orderly,fun call hcall => ?_,order,hperm,hfree,hs.unused,hlog⟩,
      measure_lt_of_stage rfl (by simp [stage,hl,hidle])⟩
    exact hs.unused call (by dsimp only at hcall; omega)

theorem goes_step {q : π} {ips : List IpAddr} {s s' : Request π Channel Response} {a : Act Channel}
    (hs : Sound q ips s) (h : s.step q a = some s') : Goes q ips s s' := by
  cases a with
  | goOn =>
    cases hl : s.loop with
    | head tries =>
      simp only [Request.step,hl] at h
      exact goes_goOn hs hl h
    | sleep tries duration =>
      obtain ⟨order,-,hpoint⟩ := hs.point
      rw [hl] at hpoint
      exact hpoint.elim
    | _ => simp [Request.step,hl] at h
  | pool actor input =>
    simp only [Request.step,Option.ite_none_right_eq_some,Bool.and_eq_true,Option.isNone_iff_eq_none,
      Option.map_eq_some_iff] at h
    obtain ⟨⟨hw,hi⟩,w,hstep,rfl⟩ := h
    rcases works_cases hw with ⟨tries,hl,ha⟩ | ⟨tries,ip,e,time,hl,rfl⟩
    · exact goes_getChannel hs hl ha hw hi hstep
    · exact goes_report hs hl hw hstep
  | answered =>
    simp only [Request.step] at h
    split at h
    · rename_i tries out hl hout
      exact goes_answered hs hl hout h
    · cases h
  | failed e =>
    simp only [Request.step] at h
    split at h
    · rename_i tries ip channel hl
      simp only [Option.ite_none_right_eq_some] at h
      exact goes_failed hs hl h.1 h.2
    · cases h
  | reported =>
    simp only [Request.step] at h
    split at h
    · rename_i tries ip e time hl
      split at h
      · rename_i hidle
        exact goes_reported hs hl hidle h
      · cases h
    · cases h

/-- The pool takes a step for the loop. -/
theorem exists_pool {q : π} {s : Request π Channel Response} {actor : Actor} {i : Input Channel}
    {w : World π Channel} (hw : s.works actor = true) (hi : i.outcome = none)
    (h : s.world.step ⟨q,actor,i⟩ = some w) : ∃ a s', s.step q a = some s' :=
  ⟨.pool actor i,_,by simp only [Request.step,hw,hi,h]; rfl⟩

theorem exists_step {q : π} {ips : List IpAddr} {s : Request π Channel Response}
    (hs : Sound q ips s) (hnot : ∀ result, s.loop ≠ .returned result) :
    ∃ a s', s.step q a = some s' := by
  obtain ⟨world,loop,calls,log⟩ := s
  obtain ⟨order,-,hpoint⟩ := hs.point
  let i : Input Channel := { now := world.clock }
  cases loop with
  | head tries => exact ⟨.goOn,_,rfl⟩
  | getChannel tries =>
    rcases fetching_progress i hpoint.1 with ⟨out,hout⟩ | ⟨r,hr⟩ | ⟨p,hp⟩
    · have hdone : (world.pool q).get calls = .done out := hout
      cases out with
      | none => exact ⟨.answered,_,by simp only [Request.step,hdone]; rfl⟩
      | some e => exact ⟨.answered,_,by simp only [Request.step,hdone]; rfl⟩
    · have hstep : world.step ⟨q,.get calls,i⟩ =
          some ⟨world.clock,r.1,Function.update world.pool q r.2⟩ :=
        World.step_eq_some.mpr ⟨le_refl _,_,_,hr,rfl⟩
      exact exists_pool (by simp [Request.works]) rfl hstep
    · have hstep : world.step ⟨q,.task (.future calls 0),i⟩ =
          some ⟨world.clock,world.recheck,Function.update world.pool q p⟩ :=
        World.step_eq_some.mpr ⟨le_refl _,_,_,by simp [World.turn,hp],rfl⟩
      exact exists_pool (by simp [Request.works]) rfl hstep
  | call tries ip channel => exact ⟨.failed WithRetry.refused,_,rfl⟩
  | reportBroken tries ip e time =>
    have hpool {r : Report} (ht : (world.pool q).task (.report calls ip) = .report r) :
        ∃ (a : Act Channel) (s' : Request π Channel Response),
          Request.step q ⟨world,.reportBroken tries ip e time,calls,log⟩ a = some s' := by
      have hstep : ∃ p, (world.pool q).stepTask (.report calls ip) i = some p :=
        ⟨_,by simp only [Pool.stepTask,ht]; rfl⟩
      obtain ⟨p,hp⟩ := hstep
      have hworld : world.step ⟨q,.task (.report calls ip),i⟩ =
          some ⟨world.clock,world.recheck,Function.update world.pool q p⟩ :=
        World.step_eq_some.mpr ⟨le_refl _,_,_,by simp [World.turn,hp],rfl⟩
      exact exists_pool (by simp [Request.works]) rfl hworld
    obtain ⟨-,-,⟨ht,-,-⟩ | ⟨⟨d,ht⟩ | ht,-⟩⟩ := hpoint
    · exact hpool ht
    · exact hpool ht
    · have hidle : (world.pool q).task (.report calls ip) = .idle := ht
      exact ⟨.reported,_,by simp only [Request.step,hidle]; rfl⟩
  | sleep tries duration => exact hpoint.elim
  | returned result => exact absurd rfl (hnot result)
  | panicked => exact hpoint.elim

/-- The addresses that were attempted, by the record. -/
def attempts : List Event → List IpAddr
  | [] => []
  | .attempted ip::log => ip::attempts log
  | .reported _ _::log => attempts log

theorem attempts_accounted (order : List IpAddr) : attempts (accounted order) = order := by
  induction order with
  | nil => rfl
  | cons ip order ih => exact congrArg (ip::·) ih

/-- What has become of a request that found the addresses `ips` ready. -/
structure Exhausted (q : π) (ips : List IpAddr) (s : Request π Channel Response)
    (result : Except Status Response) : Prop where
  error : ∃ e, result = .error e
  empty : (s.world.pool q).lists.ready.channels = []
  attempted : (attempts s.log).length = ips.length
  once : ∀ ip, (attempts s.log).count ip = ips.count ip
  reported : s.log = accounted (attempts s.log)

omit [DecidableEq π] in
theorem exhausted_of_sound {q : π} {ips : List IpAddr} {s : Request π Channel Response}
    {result : Except Status Response} (hs : Sound q ips s) (hl : s.loop = .returned result) :
    Exhausted q ips s result := by
  obtain ⟨order,hperm,hpoint⟩ := hs.point
  rw [hl] at hpoint
  obtain ⟨hresult,hempty,hlog⟩ := hpoint
  have horder : attempts s.log = order := by rw [hlog,attempts_accounted]
  have hnone : (s.world.pool q).lists.readyIps = [] := congrArg (List.map Prod.fst) hempty
  rw [hnone,List.append_nil] at hperm
  refine ⟨⟨_,hresult⟩,hempty,?_,fun ip => ?_,by rw [horder,hlog]⟩
  · rw [horder]
    exact hperm.length_eq
  · rw [horder]
    exact hperm.count_eq ip

/-- Alone on a pool whose servers are all dead, a request under `DefaultRetryPolicy` ends.
It has then attempted every ready entry once, each attempt was followed by a report that
took out one entry, and it returns an error with the ready list empty. -/
theorem exhausts_of_run {q : π} {w : World π Channel} {calls : ℕ}
    (hlock : w.recheck.lock = RwLock.free) (horderly : (w.pool q).Orderly)
    (hunused : Unused (w.pool q) calls) :
    Terminates (Request.step q) (Request.start w calls : Request π Channel Response) ∧
      ∀ as s, run (Request.step q) (Request.start w calls : Request π Channel Response) as = some s →
        (∀ result, s.loop = .returned result → Exhausted q (w.pool q).lists.readyIps s result) ∧
        ((∀ result, s.loop ≠ .returned result) → ∃ a s', s.step q a = some s') := by
  have hsound : Sound q (w.pool q).lists.readyIps (Request.start w calls : Request π Channel Response) := by
    refine ⟨horderly,fun call hcall => ?_,[],List.Perm.refl _,hlock,hunused,rfl⟩
    exact hunused call (by dsimp only [Request.start] at hcall; omega)
  refine ⟨terminates_of_measure (fun _ _ _ hs h => goes_step hs h) hsound,fun as s hr => ?_⟩
  have hs : Sound q (w.pool q).lists.readyIps s :=
    run_invariant (P := fun _ _ => True) (fun _ _ _ hs _ h => (goes_step hs h).1) hsound
      (along_of_forall (fun _ _ _ => trivial) _) hr
  exact ⟨fun _ => exhausted_of_sound hs,exists_step hs⟩

/-- A pool with a server listed twice, and the counter about to wrap around. -/
def stocked : World Unit Unit :=
  { (World.init : World Unit Unit) with pool := fun _ => { Pool.init with
      lists := ⟨⟨[(.v4 1,()),(.v4 1,())],18446744073709551615⟩,BrokenEndpoints.empty⟩ } }

def pass (actor : Actor) : Act Unit := .pool actor { now := 0 }

/-- One attempt and its report. -/
def attempt (call : ℕ) : List (Act Unit) :=
  [.goOn,pass (.get call),.answered,.failed WithRetry.refused,pass (.task (.report call (.v4 1))),
    pass (.task (.report call (.v4 1))),.reported]

/-- The forced recheck of the third call, in which the recheck of the server completes first. -/
def recheck : List (Act Unit) :=
  .goOn::List.replicate 9 (pass (.get 2)) ++ List.replicate 3 (pass (.task (.future 2 1))) ++
    [pass (.get 2),.answered]

theorem exhausts_stocked : ∃ s : Request Unit Unit Unit,
    run (Request.step ()) (Request.start stocked 0) (attempt 0 ++ attempt 1 ++ recheck) = some s ∧
      s.loop = .returned (.error WithRetry.noReadyChannels) ∧
      Exhausted () [.v4 1,.v4 1] s (.error WithRetry.noReadyChannels) := by
  have hrun : ∃ s : Request Unit Unit Unit,
      run (Request.step ()) (Request.start stocked 0) (attempt 0 ++ attempt 1 ++ recheck) = some s ∧
        s.loop = .returned (.error WithRetry.noReadyChannels) := ⟨_,rfl,rfl⟩
  obtain ⟨s,hs,hl⟩ := hrun
  have horderly : (stocked.pool ()).Orderly := fun _ _ _ => trivial
  have hunused : Unused (stocked.pool ()) 0 := fun _ _ => ⟨rfl,fun _ => rfl⟩
  exact ⟨s,hs,hl,((exhausts_of_run rfl horderly hunused).2 _ s hs).1 _ hl⟩

end Requests

end Exhaustion
end SodaPool
