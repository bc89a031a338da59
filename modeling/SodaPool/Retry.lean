import SodaPool.StdTypes
import SodaPool.Transition

/-!
# The retry loop of a generated client

`<method>_with_retry` asks the pool for a channel, makes the call and lets the policy judge
an error. What the pool and the server say is an `Answer`; the policy is any function. The
counter of the attempts is a `u8`, because that is what a policy takes.
-/

namespace SodaPool

open Transition

/-- The codes of gRPC. -/
inductive Code
  | ok | cancelled | unknown | invalidArgument | deadlineExceeded | notFound | alreadyExists
  | permissionDenied | resourceExhausted | failedPrecondition | aborted | outOfRange
  | unimplemented | internal | unavailable | dataLoss | unauthenticated
  deriving DecidableEq

/-- The `Status` of tonic. Only errors made by the client library have a source. -/
structure Status where
  code : Code
  message : String
  details : List UInt8
  metadata : List (String × List UInt8)
  source : Option String
  deriving DecidableEq

def Status.unavailable (message : String) : Status := ⟨.unavailable,message,[],[],none⟩

inductive ServerStatus
  | alive
  | dead
  deriving DecidableEq

/-- Durations are in nanoseconds. -/
inductive RetryTime
  | doNotRetry
  | immediately
  | after (duration : ℕ)
  deriving DecidableEq

/-- `should_retry`: the error and the number of the attempt. -/
abbrev RetryPolicy := Status → UInt8 → ServerStatus × RetryTime

def defaultRetryPolicy : RetryPolicy := fun err _ =>
  if err.source.isSome then (.dead,.immediately) else (.alive,.doNotRetry)

/-- The program points of `<method>_with_retry`. -/
inductive WithRetry (Response Channel : Type)
  | head (tries : UInt8)
  | getChannel (tries : UInt8)
  | call (tries : UInt8) (ip : IpAddr) (channel : Channel)
  | reportBroken (tries : UInt8) (ip : IpAddr) (e : Status) (time : RetryTime)
  | sleep (tries : UInt8) (duration : ℕ)
  | returned (result : Except Status Response)
  | panicked

namespace WithRetry

variable {Response Channel : Type}

/-- What `get_channel` returns, how a call ends, or that the loop goes on by itself: a report
has ended, or a sleep. -/
inductive Answer (Response Channel : Type)
  | channel (out : Option (IpAddr × Channel))
  | response (result : Except Status Response)
  | goOn

def start : WithRetry Response Channel := .head 0

/-- `tries += 1`. A build with overflow checks panics where one without wraps. -/
def count (checks : Bool) (tries : UInt8) : Option UInt8 :=
  if checks = true ∧ tries = 255 then none else some (tries+1)

def noReadyChannels : Status := .unavailable "No ready channels"

/-- The end of the loop's body. -/
def next (tries : UInt8) (e : Status) : RetryTime → WithRetry Response Channel
  | .doNotRetry => .returned (.error e)
  | .immediately => .head tries
  | .after duration => .sleep tries duration

def step (policy : RetryPolicy) (checks : Bool) :
    WithRetry Response Channel → Answer Response Channel → Option (WithRetry Response Channel)
  | .head tries,.goOn => some (((count checks tries).map .getChannel).getD .panicked)
  | .getChannel tries,.channel (some (ip,channel)) => some (.call tries ip channel)
  | .getChannel _,.channel none => some (.returned (.error noReadyChannels))
  | .call _ _ _,.response (.ok response) => some (.returned (.ok response))
  | .call tries ip _,.response (.error e) =>
    match policy e tries with
    | (.dead,time) => some (.reportBroken tries ip e time)
    | (.alive,time) => some (next tries e time)
  | .reportBroken tries _ e time,.goOn => some (next tries e time)
  | .sleep tries _,.goOn => some (.head tries)
  | _,_ => none

/-- What the loop does at each of its points. -/
inductive Goes (policy : RetryPolicy) (checks : Bool) :
    WithRetry Response Channel → Answer Response Channel → WithRetry Response Channel → Prop
  | counts {tries n : UInt8} : count checks tries = some n →
      Goes policy checks (.head tries) .goOn (.getChannel n)
  | overflows {tries : UInt8} : count checks tries = none →
      Goes policy checks (.head tries) .goOn .panicked
  | finds {tries : UInt8} {ip : IpAddr} {channel : Channel} :
      Goes policy checks (.getChannel tries) (.channel (some (ip,channel))) (.call tries ip channel)
  | exhausts {tries : UInt8} : Goes policy checks (.getChannel tries) (.channel none)
      (.returned (.error noReadyChannels))
  | succeeds {tries : UInt8} {ip : IpAddr} {channel : Channel} {response : Response} :
      Goes policy checks (.call tries ip channel) (.response (.ok response))
        (.returned (.ok response))
  | dead {tries : UInt8} {ip : IpAddr} {channel : Channel} {e : Status} {time : RetryTime} :
      policy e tries = (.dead,time) → Goes policy checks (.call tries ip channel)
        (.response (.error e)) (.reportBroken tries ip e time)
  | alive {tries : UInt8} {ip : IpAddr} {channel : Channel} {e : Status} {time : RetryTime} :
      policy e tries = (.alive,time) → Goes policy checks (.call tries ip channel)
        (.response (.error e)) (next tries e time)
  | reported {tries : UInt8} {ip : IpAddr} {e : Status} {time : RetryTime} :
      Goes policy checks (.reportBroken tries ip e time) .goOn (next tries e time)
  | slept {tries : UInt8} {duration : ℕ} :
      Goes policy checks (.sleep tries duration) .goOn (.head tries)

theorem goes_of_step {policy : RetryPolicy} {checks : Bool} {s s' : WithRetry Response Channel}
    {a : Answer Response Channel} (h : step policy checks s a = some s') :
    Goes policy checks s a s' := by
  revert h
  fun_cases step policy checks s a <;> intro h <;> cases h
  · rename_i tries
    cases hc : count checks tries with
    | none => exact .overflows hc
    | some n => exact .counts hc
  all_goals first | exact .dead ‹_› | exact .alive ‹_› | constructor

/-- A call is made of what `get_channel` has returned. -/
theorem Goes.of_call {policy : RetryPolicy} {checks : Bool} {p : WithRetry Response Channel}
    {a : Answer Response Channel} {tries : UInt8} {ip : IpAddr} {channel : Channel}
    (h : Goes policy checks p a (.call tries ip channel)) :
    p = .getChannel tries ∧ a = .channel (some (ip,channel)) := by
  generalize hp : (.call tries ip channel : WithRetry Response Channel) = p' at h
  cases h with
  | finds =>
    cases hp
    exact ⟨rfl,rfl⟩
  | @alive _ _ _ _ time | @reported _ _ _ time => cases time <;> cases hp
  | counts | overflows | exhausts | succeeds | dead | slept => cases hp

/-- A report follows a failed call whose server is taken for dead. -/
theorem Goes.of_reportBroken {policy : RetryPolicy} {checks : Bool} {p : WithRetry Response Channel}
    {a : Answer Response Channel} {tries : UInt8} {ip : IpAddr} {e : Status} {time : RetryTime}
    (h : Goes policy checks p a (.reportBroken tries ip e time)) :
    ∃ channel, p = .call tries ip channel ∧ a = .response (.error e) ∧
      policy e tries = (.dead,time) := by
  generalize hp : (.reportBroken tries ip e time : WithRetry Response Channel) = p' at h
  cases h with
  | dead hdead =>
    cases hp
    exact ⟨_,rfl,rfl,hdead⟩
  | @alive _ _ _ _ time' | @reported _ _ _ time' => cases time' <;> cases hp
  | counts | overflows | finds | exhausts | succeeds | slept => cases hp

/-- The errors of the attempts, the last one last. -/
def failures : List (Answer Response Channel) → List Status
  | [] => []
  | .response (.error e)::answers => e::failures answers
  | _::answers => failures answers

/-- At least one attempt was made, all of them failed and were to be retried, and the pool is
asked for the next channel. -/
def Retrying (policy : RetryPolicy) (checks : Bool) (answers : List (Answer Response Channel))
    (e : Status) : Prop :=
  (∃ tries, run (step policy checks) start answers = some (.getChannel tries)) ∧
    (failures answers).getLast? = some e

/-- A call that has failed and finds the pool empty returns the error of its last attempt
exactly when that error is the one it makes for an empty pool. -/
theorem returnsLast_iff {policy : RetryPolicy} {checks : Bool}
    {answers : List (Answer Response Channel)} {e : Status}
    (h : Retrying policy checks answers e) :
    run (step policy checks) start (answers ++ [.channel none]) = some (.returned (.error e)) ↔
      e = noReadyChannels := by
  obtain ⟨⟨tries,hr⟩,-⟩ := h
  have hnone : run (step policy checks) start (answers ++ [.channel none]) =
      some (.returned (.error noReadyChannels)) :=
    run_append.mpr ⟨.getChannel tries,hr,rfl⟩
  rw [hnone]
  simp [eq_comm]

/-- An attempt to connect that fails in the client library. -/
def refused : Status := ⟨.unavailable,"tcp connect error",[],[],some "Connection refused"⟩

/-- The only server of the pool is dead, and the caller never learns why. -/
theorem returnsLast_fails : ∃ (policy : RetryPolicy) (checks : Bool)
    (answers : List (Answer Unit Unit)) (e : Status), Retrying policy checks answers e ∧
      run (step policy checks) start (answers ++ [.channel none]) ≠ some (.returned (.error e)) := by
  refine ⟨defaultRetryPolicy,true,[.goOn,.channel (some (.v4 1,())),.response (.error refused),
    .goOn,.goOn],refused,⟨⟨_,rfl⟩,rfl⟩,?_⟩
  intro h
  have hsame : noReadyChannels = refused := by
    simpa [run,step,start,count,defaultRetryPolicy,refused,next] using h
  exact absurd hsame (by decide)

/-- A server may itself answer with the error of an empty pool. -/
theorem returnsLast_same : ∃ answers : List (Answer Unit Unit),
    run (step (fun _ _ => (.alive,.immediately)) true) start (answers ++ [.channel none]) =
      some (.returned (.error noReadyChannels)) :=
  ⟨[.goOn,.channel (some (.v4 1,())),.response (.error noReadyChannels),.goOn],
    (returnsLast_iff ⟨⟨_,rfl⟩,rfl⟩).mpr rfl⟩

end WithRetry
end SodaPool
