import SodaPool.Moves

/-!
# How often the forced recheck is made

`get_channel` tests the age of the last recheck under a read lock, and writes the new
time under a write lock it takes later. A call whose test is out of date by then makes
its recheck all the same. The lock and the record of rechecks are those of the process.
-/

namespace SodaPool
namespace RateLimit

open Transition

variable {π Channel : Type}

/-- A call that has passed the age test and has not made its stamp yet. -/
def Passed : GetChannel Channel → Prop
  | .dropRead | .requestWrite | .awaitWrite | .getAnyLocked | .stamp => True
  | _ => False

theorem recheckDue_iff {last : DateTime} {now : ℕ} :
    recheckDue last now ↔ last.nanos + 500000000 ≤ now := by
  simp only [recheckDue,minInterval,DateTime.signedDurationSince,DateTime.nanos_utc]
  omega

theorem recheckDue_mono {last : DateTime} {now now' : ℕ} (h : recheckDue last now)
    (hle : now ≤ now') : recheckDue last now' := by
  rw [recheckDue_iff] at h ⊢
  omega

theorem recheckDue_utc {t now : ℕ} : recheckDue (.utc t) now ↔ t + 500000000 ≤ now := by
  rw [recheckDue_iff,DateTime.nanos_utc]
  omega

theorem passed_update {get : ℕ → GetChannel Channel} {call : ℕ} {g : GetChannel Channel}
    (hg : Passed g → Passed (get call)) (c : ℕ) (h : Passed (Function.update get call g c)) :
    Passed (get c) := by
  by_cases hc : c = call
  · subst hc
    exact hg (by simpa using h)
  · rwa [Function.update_of_ne hc] at h

/-- Any two forced rechecks start at least 500 ms apart. -/
def Spaced (w : World π Channel) : Prop :=
  w.recheck.starts.Pairwise (fun later earlier => earlier.time + 500000000 ≤ later.time)

/-- When a call stamps the lock, the timestamp in it is still the one that the age test of the
call has read. -/
def StampsInTime (w : World π Channel) (l : Label π Channel) : Prop :=
  ∀ call, l.actor = .get call → (w.pool l.pool).get call = .stamp →
    w.recheck.last = w.recheck.tested (l.pool,call)

instance [DecidableEq π] (w : World π Channel) (l : Label π Channel) :
    Decidable (StampsInTime w l) :=
  match ha : l.actor with
  | .get call =>
    match hs : (w.pool l.pool).get call with
    | .stamp => decidable_of_iff (w.recheck.last = w.recheck.tested (l.pool,call))
        (by simp [StampsInTime,ha,hs])
    | .start | .tryRead | .ageTest | .dropRead | .requestWrite | .awaitWrite | .getAnyLocked
    | .snapshot | .select _ | .release _ | .requestWait | .awaitWait | .releaseWait | .getAnyLast
    | .cancelled | .done _ => isTrue (by simp [StampsInTime,ha,hs])
  | .task _ | .cancel _ => isTrue (by simp [StampsInTime,ha])

/-- All timestamp updates keep their distance, those of calls that are cancelled included. -/
structure Recorded (w : World π Channel) : Prop where
  last : w.recheck.last = lastStamp w.recheck.stamps
  tested : ∀ q c, Passed ((w.pool q).get c) → recheckDue (w.recheck.tested (q,c)) w.clock
  apart : (w.recheck.stamps.map Stamp.time).Pairwise
    (fun later earlier => earlier + 500000000 ≤ later)

theorem recorded_init : Recorded (World.init : World π Channel) :=
  ⟨rfl,fun _ _ h => h.elim,List.Pairwise.nil⟩

theorem Recorded.spaced {w : World π Channel} (hw : Recorded w) : Spaced w :=
  (List.pairwise_map.mp hw.apart).filter _

/-- An update that is due keeps its distance from all before it. -/
theorem apart_cons {stamps : List (Stamp π)} {now : ℕ}
    (h : (stamps.map Stamp.time).Pairwise (fun later earlier => earlier + 500000000 ≤ later))
    (hdue : recheckDue (lastStamp stamps) now) :
    (now::stamps.map Stamp.time).Pairwise (fun later earlier => earlier + 500000000 ≤ later) := by
  refine List.pairwise_cons.mpr ⟨?_,h⟩
  cases stamps with
  | nil => simp
  | cons s stamps =>
    rw [lastStamp,recheckDue_utc] at hdue
    intro t ht
    rcases List.mem_cons.mp ht with rfl | ht
    · exact hdue
    · have hst := (List.pairwise_cons.mp h).1 t ht
      omega

variable [DecidableEq π]

/-- What a step does to the record: nothing, to note a passed age test, to stamp the lock, or
to push the futures behind a stamp. -/
inductive Advance (r : RecheckLock π) (p : Pool Channel) (me : π) (actor : Actor) (now : ℕ)
    (r' : RecheckLock π) (p' : Pool Channel) : Prop
  | idle : r'.last = r.last → r'.stamps = r.stamps → r'.tested = r.tested →
      (∀ c, Passed (p'.get c) → Passed (p.get c)) → Advance r p me actor now r' p'
  | passed (call : ℕ) : recheckDue r.last now → r'.last = r.last → r'.stamps = r.stamps →
      r'.tested = Function.update r.tested (me,call) r.last →
      (∀ c, c ≠ call → Passed (p'.get c) → Passed (p.get c)) → Advance r p me actor now r' p'
  | stamped (call : ℕ) : actor = .get call → p.get call = .stamp → r'.last = .utc now →
      r'.stamps = ⟨(me,call),now,false⟩::r.stamps → r'.tested = r.tested →
      (∀ c, Passed (p'.get c) → Passed (p.get c)) → Advance r p me actor now r' p'
  | pushed (call : ℕ) : r'.last = r.last → r'.stamps = r.stamps.map (Stamp.push (me,call)) →
      r'.tested = r.tested → (∀ c, Passed (p'.get c) → Passed (p.get c)) →
      Advance r p me actor now r' p'

theorem stepGet_advance {p p' : Pool Channel} {r r' : RecheckLock π} {me : π} {call now : ℕ}
    (h : p.stepGet r me call now = some (r',p')) : Advance r p me (.get call) now r' p' := by
  have hkeep {lock : FairLock.RwLock (π × ℕ)} {g : GetChannel Channel} {lists : Lists Channel}
      {task : TaskId → Task Channel} (hg : Passed g → Passed (p.get call)) :
      Advance r p me (.get call) now { r with lock := lock }
        ⟨lists,task,Function.update p.get call g⟩ :=
    .idle rfl rfl rfl (passed_update hg)
  have hstep := Pool.stepGet_eq_some.mp h
  generalize hp : p.get call = g at hstep
  cases hstep with
  | start =>
    apply hkeep
    cases p.lists.ready.getAny.1 <;> exact fun hg => hg.elim
  | due hdue =>
    refine .passed call hdue rfl rfl rfl ?_
    intro c hc hpass
    simpa [Pool.setGet,Function.update_of_ne hc] using hpass
  | stamp => exact .stamped call rfl hp rfl rfl rfl (passed_update (fun hg => hg.elim))
  | snapshot => exact .pushed call rfl rfl rfl (passed_update (fun hg => hg.elim))
  | awaitWrite | dropRead | requestWrite | getAnyLocked =>
    exact hkeep (fun _ => by rw [hp]; trivial)
  | tryRead | busy | recent | awaitWait | release | requestWait | releaseWait
  | getAnyLast => exact hkeep (fun hg => hg.elim)

theorem stepCancel_recheck {p p' : Pool Channel} {r r' : RecheckLock π} {me : π} {call : ℕ}
    (h : p.stepCancel r me call = some (r',p')) :
    r' = { r with lock := r.lock.forget (me,call) } := by
  cases hg : p.get call <;>
    simp_all only [Pool.stepCancel,Option.some.injEq,Prod.mk.injEq,reduceCtorEq]

theorem passed_of_move {p p' : Pool Channel} {actor : Actor} {i : Input Channel}
    (hm : p.Move actor i p') (ha : ∀ call, actor ≠ .get call) (c : ℕ) (h : Passed (p'.get c)) :
    Passed (p.get c) := by
  cases hm with
  | task => exact h
  | yield =>
    have hnot : ¬ Passed (.release p.lists.ready.getAny.1) := id
    exact passed_update (fun hg => absurd hg hnot) c h
  | push => exact absurd rfl (ha _)
  | call => exact absurd rfl (ha _)
  | cancel =>
    have hnot : ¬ Passed (.cancelled : GetChannel Channel) := id
    exact passed_update (fun hg => absurd hg hnot) c h

theorem step_advance {w w' : World π Channel} {l : Label π Channel} (h : w.step l = some w') :
    Advance w.recheck (w.pool l.pool) l.pool l.actor l.input.now w'.recheck (w'.pool l.pool) := by
  have hm := (World.step_move h).2.2.1
  obtain ⟨-,r,p,hturn,rfl⟩ := World.step_eq_some.mp h
  cases ha : l.actor with
  | task id =>
    simp only [World.turn,ha,Option.map_eq_some_iff] at hturn
    obtain ⟨p',-,heq⟩ := hturn
    cases heq
    exact .idle rfl rfl rfl (passed_of_move hm (by simp [ha]))
  | get call =>
    simp only [World.turn,ha] at hturn
    simpa using stepGet_advance hturn
  | cancel call =>
    simp only [World.turn,ha] at hturn
    have hrec := stepCancel_recheck hturn
    subst hrec
    exact .idle rfl rfl rfl (passed_of_move hm (by simp [ha]))

/-- A stamp made in time is at least 500 ms after the one before it. -/
theorem recheckDue_of_stampsInTime {w w' : World π Channel} {l : Label π Channel} {call : ℕ}
    (hw : Recorded w) (hl : StampsInTime w l) (h : w.step l = some w')
    (ha : l.actor = .get call) (hs : (w.pool l.pool).get call = .stamp) :
    recheckDue w.recheck.last l.input.now := by
  rw [hl call ha hs]
  exact recheckDue_mono (hw.tested l.pool call (by rw [hs]; trivial)) (World.step_move h).1

theorem recorded_step {w w' : World π Channel} {l : Label π Channel} (hw : Recorded w)
    (hl : StampsInTime w l) (h : w.step l = some w') : Recorded w' := by
  obtain ⟨hle,hclock,-,hother⟩ := World.step_move h
  have hold (q : π) (c : ℕ) (hpass : Passed ((w.pool q).get c)) :
      recheckDue (w.recheck.tested (q,c)) w'.clock :=
    recheckDue_mono (hw.tested q c hpass) (hclock ▸ hle)
  have hkeep (hget : ∀ c, Passed ((w'.pool l.pool).get c) → Passed ((w.pool l.pool).get c))
      (htested : w'.recheck.tested = w.recheck.tested) (q : π) (c : ℕ)
      (hpass : Passed ((w'.pool q).get c)) : recheckDue (w'.recheck.tested (q,c)) w'.clock := by
    rw [htested]
    apply hold
    by_cases hq : q = l.pool
    · subst hq
      exact hget c hpass
    · rwa [hother q hq] at hpass
  cases step_advance h with
  | idle hlast hstamps htested hget =>
    exact ⟨by rw [hlast,hstamps,hw.last],hkeep hget htested,by rw [hstamps]; exact hw.apart⟩
  | passed call hdue hlast hstamps htested hget =>
    refine ⟨by rw [hlast,hstamps,hw.last],?_,by rw [hstamps]; exact hw.apart⟩
    intro q c hpass
    rw [htested]
    by_cases hqc : (q,c) = (l.pool,call)
    · rw [hqc,Function.update_self,hclock]
      exact hdue
    · rw [Function.update_of_ne hqc]
      apply hold
      by_cases hq : q = l.pool
      · subst hq
        exact hget c (fun hc => hqc (by rw [hc])) hpass
      · rwa [hother q hq] at hpass
  | stamped call ha hs hlast hstamps htested hget =>
    refine ⟨by rw [hlast,hstamps]; rfl,hkeep hget htested,?_⟩
    have hdue := recheckDue_of_stampsInTime hw hl h ha hs
    rw [hw.last] at hdue
    rw [hstamps]
    exact apart_cons hw.apart hdue
  | pushed call hlast hstamps htested hget =>
    refine ⟨by rw [hlast,hstamps,hw.last,lastStamp_push],hkeep hget htested,?_⟩
    have htimes : w'.recheck.stamps.map Stamp.time = w.recheck.stamps.map Stamp.time := by
      simp [hstamps]
    rw [htimes]
    exact hw.apart

/-- In a run in which every stamp is made in time the forced rechecks keep their distance. -/
theorem spaced_of_run {ls : List (Label π Channel)}
    (hl : Along World.step StampsInTime World.init ls) :
    Always World.step Spaced World.init ls :=
  (always_of_step (fun _ _ _ hw hl h => recorded_step hw hl h) recorded_init hl).mono
    (fun _ hw => hw.spaced)

/-- A forced recheck of the second pool, whose domain does not resolve; a call of the first one
that comes 100 ms later and gives up; and one that comes 500 ms later. -/
def apart : List (Label Bool Unit) :=
  List.replicate 9 (.quiet false (.get 0) 0) ++
    List.replicate 2 (.quiet false (.task (.future 0 0)) 0) ++ [.quiet false (.get 0) 0] ++
    List.replicate 3 (.quiet true (.get 0) 100000000) ++
    List.replicate 9 (.quiet true (.get 1) 500000000)

theorem spaced_apart : ∃ u : World Bool Unit, run World.step World.init apart = some u ∧
    u.recheck.starts = [⟨(true,1),500000000,true⟩,⟨(false,0),0,true⟩] ∧ Spaced u := by
  have h : (run World.step World.init apart).map (fun u => u.recheck.starts) =
      some [⟨(true,1),500000000,true⟩,⟨(false,0),0,true⟩] := by decide
  obtain ⟨u,hu,hstarts⟩ := Option.map_eq_some_iff.mp h
  have hl : Along World.step StampsInTime World.init apart := by decide
  exact ⟨u,hu,hstarts,(spaced_of_run hl).last hu⟩

/-- Two calls pass the age test before either takes the write lock. The first finds no
channel, as the domain does not resolve; the second makes its own recheck at once. -/
def together : List (Label Unit Unit) :=
  List.replicate 3 (.quiet () (.get 0) 0) ++ List.replicate 3 (.quiet () (.get 1) 0) ++
    [.quiet () (.get 0) 0,.quiet () (.get 1) 0,.quiet () (.get 0) 0,.quiet () (.get 1) 0] ++
    List.replicate 4 (.quiet () (.get 0) 0) ++
    [.quiet () (.task (.future 0 0)) 0,.quiet () (.task (.future 0 0)) 0,.quiet () (.get 0) 0] ++
    List.replicate 4 (.quiet () (.get 1) 0)

/-- The futures of both rechecks are pushed, and the two start at the same time. -/
theorem spaced_fails : ∃ (ls : List (Label Unit Unit)) (u : World Unit Unit),
    run World.step World.init ls = some u ∧ ¬ Spaced u := by
  have h : (run World.step World.init together).map (fun u => u.recheck.starts) =
      some [⟨((),1),0,true⟩,⟨((),0),0,true⟩] := by decide
  obtain ⟨u,hu,hstarts⟩ := Option.map_eq_some_iff.mp h
  refine ⟨together,u,hu,?_⟩
  rw [Spaced,hstarts]
  simp

end RateLimit
end SodaPool
