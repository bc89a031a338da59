import SodaPool.Clients
import SodaPool.Provenance

/-!
# Many requests on one pool

While no server becomes ready, a server that has failed a request is given to it no more:
the report has taken it out, or somebody else's report has before. So the ready list bounds
the attempts of every request, however many of them share the pool and in whatever order
their steps come.
-/

namespace SodaPool
namespace Crowd

open Containers Transition Clients Provenance

variable {π Channel Response : Type}

/-- No report of the call has been made. -/
def Unreported (p : Pool Channel) (call : ℕ) : Prop :=
  ∀ ip, p.task (.report call ip) = .report (.remove ip)

/-- The call that a step is taken for. -/
def callOf : Actor → Option ℕ
  | .get call | .cancel call | .task (.report call _) => some call
  | .task .dns | .task .doctor | .task (.future _ _) => none

/-- The numbers of the rounds to come are unused, and a round is reported at its end only. -/
structure Numbered (pool : ℕ → π) (s : Clients π Channel Response) : Prop where
  later : ∀ k n, (s.session k).round < n → (s.world.pool (pool k)).get (Nat.pair k n) = .start ∧
    Unreported (s.world.pool (pool k)) (Nat.pair k n)
  getChannel : ∀ k tries, (s.session k).loop = some (.getChannel tries) →
    Unreported (s.world.pool (pool k)) (s.call k)
  call : ∀ k tries ip channel, (s.session k).loop = some (.call tries ip channel) →
    Unreported (s.world.pool (pool k)) (s.call k)

theorem numbered_start {pool : ℕ → π} :
    Numbered pool (start World.init : Clients π Channel Response) where
  later _ _ _ := ⟨rfl,fun _ => rfl⟩
  getChannel k tries h := by cases h
  call k tries ip channel h := by cases h

/-- The calls of different requests, or of different rounds, have different numbers. -/
theorem pair_ne {j k m n : ℕ} (h : j ≠ k ∨ m ≠ n) : Nat.pair j m ≠ Nat.pair k n := by
  intro heq
  obtain ⟨hj,hm⟩ := Nat.pair_eq_pair.mp heq
  exact h.elim (· hj) (· hm)

theorem callOf_background {actor : Actor} (h : Background actor = true) : callOf actor = none := by
  revert h
  fun_cases Background actor <;> simp [callOf]

section Run

variable [DecidableEq π] {pool : ℕ → π} {policy : ℕ → RetryPolicy} {checks : Bool}

theorem unreported_of_step {w w' : World π Channel} {l : Label π Channel} {q : π} {call : ℕ}
    (h : w.step l = some w') (hl : callOf l.actor ≠ some call) (hw : Unreported (w.pool q) call) :
    Unreported (w'.pool q) call := by
  intro ip
  have hkeep := World.pool_step
    (I := fun p => p.task (.report call ip) = (w.pool q).task (.report call ip)) h rfl
    (fun _ hm => hm.task_of_not_future (by simp) (fun ha => hl (by simp [ha,callOf])))
  exact hkeep.trans (hw ip)

/-- A call that nobody has begun and that no step is taken for. -/
theorem later_of_step {w w' : World π Channel} {l : Label π Channel} {q : π} {call : ℕ}
    (h : w.step l = some w') (hl : callOf l.actor ≠ some call)
    (hw : (w.pool q).get call = .start ∧ Unreported (w.pool q) call) :
    (w'.pool q).get call = .start ∧ Unreported (w'.pool q) call := by
  refine ⟨?_,unreported_of_step h hl hw.2⟩
  rw [World.get_of_not_owner (c := (q,call)) h ?_ (by simp [hw.1])]
  · exact hw.1
  · rintro ⟨-,ha | ha⟩ <;> exact hl (by simp [ha,callOf])

/-- A step of the world that is taken for no request, or for one of them. -/
theorem numbered_turn {s : Clients π Channel Response} {w : World π Channel} {l : Label π Channel}
    (hs : Numbered pool s) (h : s.world.step l = some w)
    (hl : ∀ call, callOf l.actor = some call → ∃ j, call = s.call j ∧
      ∀ p, (s.session j).loop = some p → (∀ ip, l.actor ≠ .task (.report call ip)) ∨
        ∃ tries ip e time, p = .reportBroken tries ip e time) :
    Numbered pool { s with world := w } := by
  have hround {k n : ℕ} (hn : (s.session k).round < n) : callOf l.actor ≠ some (Nat.pair k n) := by
    intro hcall
    obtain ⟨j,hj,-⟩ := hl _ hcall
    refine pair_ne ?_ hj
    by_cases hjk : k = j
    · subst hjk
      exact .inr (by omega)
    · exact .inl hjk
  have hkeep {k : ℕ} {p : WithRetry Response Channel} (hk : (s.session k).loop = some p)
      (hp : ∀ tries ip e time, p ≠ .reportBroken tries ip e time)
      (hw : Unreported (s.world.pool (pool k)) (s.call k)) :
      Unreported (w.pool (pool k)) (s.call k) := by
    intro ip
    have hsame := World.pool_step (I := fun q => q.task (.report (s.call k) ip) =
      (s.world.pool (pool k)).task (.report (s.call k) ip)) h rfl ?_
    · exact hsame.trans (hw ip)
    intro _ hm
    apply hm.task_of_not_future (by simp)
    intro ha
    obtain ⟨j,hj,hreport⟩ := hl (s.call k) (by simp [ha,callOf])
    obtain ⟨rfl,-⟩ := Nat.pair_eq_pair.mp hj
    rcases hreport p hk with hnot | ⟨tries,ip',e,time,rfl⟩
    · exact hnot ip ha
    · exact hp tries ip' e time rfl
  exact ⟨fun k n hn => later_of_step h (hround hn) (hs.later k n hn),
    fun k tries hk => hkeep hk (by simp) (hs.getChannel k tries hk),
    fun k tries ip channel hk => hkeep hk (by simp) (hs.call k tries ip channel hk)⟩

omit [DecidableEq π] in
/-- A request that goes on, or is gone. -/
theorem numbered_setSession {s : Clients π Channel Response} {k : ℕ} {x : Session Channel Response}
    (hs : Numbered pool s) (hround : (s.session k).round ≤ x.round)
    (hx : ∀ p, x.loop = some p → (∃ tries, p = .getChannel tries) ∨
      (∃ tries ip channel, p = .call tries ip channel) →
        Unreported (s.world.pool (pool k)) (Nat.pair k x.round)) :
    Numbered pool (s.setSession k x) := by
  have hat (j : ℕ) : (s.setSession k x).session j = s.session j ∨
      j = k ∧ (s.setSession k x).session j = x := by
    by_cases hj : j = k
    · subst hj
      exact .inr ⟨rfl,by simp [setSession]⟩
    · exact .inl (by simp [setSession,hj])
  constructor
  · intro j n hn
    apply hs.later j n
    rcases hat j with heq | ⟨rfl,heq⟩
    · rwa [heq] at hn
    · rw [heq] at hn
      omega
  · intro j tries hj
    rcases hat j with heq | ⟨rfl,heq⟩
    · rw [call,heq]
      exact hs.getChannel j tries (heq ▸ hj)
    · rw [call,heq]
      exact hx _ (heq ▸ hj) (.inl ⟨tries,rfl⟩)
  · intro j tries ip channel hj
    rcases hat j with heq | ⟨rfl,heq⟩
    · rw [call,heq]
      exact hs.call j tries ip channel (heq ▸ hj)
    · rw [call,heq]
      exact hx _ (heq ▸ hj) (.inr ⟨tries,ip,channel,rfl⟩)

theorem numbered_step {s s' : Clients π Channel Response} {x : Act π Channel Response}
    (hs : Numbered pool s) (h : step pool policy checks s x = some s') : Numbered pool s' := by
  cases goes_of_step h with
  | background hback hw =>
    refine numbered_turn hs hw (fun call hcall => ?_)
    rw [callOf_background hback] at hcall
    cases hcall
  | @gets k i tries w hloop hw =>
    refine numbered_turn hs hw (fun call hcall => ⟨k,?_,fun p _ => .inl (by simp)⟩)
    exact (Option.some.inj hcall).symm
  | @reports k i tries ip e time w hloop hw =>
    refine numbered_turn hs hw (fun call hcall => ⟨k,?_,fun p hp => .inr ⟨tries,ip,e,time,?_⟩⟩)
    · exact (Option.some.inj hcall).symm
    · exact Option.some.inj (hp.symm.trans hloop)
  | @cancelled k i w hw =>
    have hturn : Numbered pool { s with world := w } := by
      refine numbered_turn hs hw (fun call hcall => ⟨k,?_,fun p _ => .inl (by simp)⟩)
      exact (Option.some.inj hcall).symm
    exact numbered_setSession hturn (le_refl _) (by simp)
  | dropped => exact numbered_setSession hs (le_refl _) (by simp)
  | @hears x k p p' a hx hp hheard hgoes =>
    cases hgoes with
    | counts =>
      exact numbered_setSession hs (Nat.le_succ _)
        (fun _ _ _ => (hs.later k _ (Nat.lt_succ_self _)).2)
    | finds => exact numbered_setSession hs (le_refl _) (fun _ _ _ => hs.getChannel k _ hp)
    | overflows | exhausts | succeeds | dead | slept =>
      exact numbered_setSession hs (le_refl _) (fun q hq hr => by
        cases hq
        rcases hr with ⟨tries,hr⟩ | ⟨tries,ip,channel,hr⟩ <;> cases hr)
    | @alive _ _ _ _ time | @reported _ _ _ time =>
      cases time <;> exact numbered_setSession hs (le_refl _) (fun q hq hr => by
        cases hq
        rcases hr with ⟨tries,hr⟩ | ⟨tries,ip,channel,hr⟩ <;> cases hr)

theorem numbered_of_run {xs : List (Act π Channel Response)} {u : Clients π Channel Response}
    (hr : run (step pool policy checks) (start World.init) xs = some u) : Numbered pool u :=
  run_invariant (P := fun _ _ => True) (fun _ _ _ hs _ h => numbered_step hs h) numbered_start
    (along_of_forall (fun _ _ _ => trivial) _) hr

/-- Where a request stands that has been given the addresses `new` since the ready list was
`ips`: no address that it has left behind is ready. -/
def At (p : Pool Channel) (call : ℕ) (ips new : List IpAddr) :
    Option (WithRetry Response Channel) → Prop
  | some (.head _) | some (.sleep _ _) => ∀ ip ∈ new, ip ∉ p.lists.readyIps
  | some (.getChannel _) => (∀ ip ∈ new, ip ∉ p.lists.readyIps) ∧
      ∀ e, given (p.get call) = some e → e.1 ∈ ips ∧ e.1 ∉ new
  | some (.call _ ip _) => ∃ left, new = left ++ [ip] ∧ ∀ ip ∈ left, ip ∉ p.lists.readyIps
  | some (.reportBroken _ ip _ _) => ∃ left, new = left ++ [ip] ∧
      (∀ ip ∈ left, ip ∉ p.lists.readyIps) ∧
        (p.task (.report call ip) = .report (.remove ip) ∨ ip ∉ p.lists.readyIps)
  | some (.returned _) | some .panicked | none => True

/-- How many rounds a request has begun that has been given `n` addresses. -/
def Rounds (n round : ℕ) : Option (WithRetry Response Channel) → Prop
  | some (.getChannel _) => round = n+1
  | some (.head _) | some (.sleep _ _) | some (.call _ _ _) | some (.reportBroken _ _ _ _) => round = n
  | some (.returned _) | some .panicked | none => round ≤ n+1

omit [DecidableEq π] in
theorem Rounds.le {n round : ℕ} {loop : Option (WithRetry Response Channel)}
    (h : Rounds n round loop) : round ≤ n+1 := by
  revert h
  fun_cases Rounds n round loop <;> intro h <;> omega

/-- The addresses with a ready channel in a pool. -/
def ready (s : Clients π Channel Response) (q : π) : List IpAddr := (s.world.pool q).lists.readyIps

variable (pool policy checks)

/-- The step makes no server of the pool ready. -/
def Shrinks (q : π) (s : Clients π Channel Response) (x : Act π Channel Response) : Prop :=
  ∀ s', step pool policy checks s x = some s' → (ready s' q).Subperm (ready s q)

instance (q : π) (s : Clients π Channel Response) (x : Act π Channel Response) :
    Decidable (Shrinks pool policy checks q s x) :=
  inferInstanceAs (Decidable (∀ s' ∈ step pool policy checks s x, (ready s' q).Subperm (ready s q)))

variable {pool checks}

omit [DecidableEq π] in
/-- Every error that the request hears makes its policy take the server for dead. -/
def Condemns (k : ℕ) (s : Clients π Channel Response) (x : Act π Channel Response) : Prop :=
  ∀ e tries ip channel, x = .responded k (.error e) →
    (s.session k).loop = some (.call tries ip channel) → (policy k e tries).1 = .dead

variable {policy}

/-- The request has been given the addresses `new`, each of them once. -/
structure Gives (k : ℕ) (q : π) (s₀ : Clients π Channel Response) (new : List IpAddr)
    (s : Clients π Channel Response) : Prop where
  shrunk : (ready s q).Subperm (ready s₀ q)
  attempted : (s.session k).attempted = (s₀.session k).attempted ++ new
  nodup : new.Nodup
  subset : new ⊆ ready s₀ q
  rounds : Rounds ((s₀.session k).round + new.length) (s.session k).round (s.session k).loop
  stands : At (s.world.pool q) (s.call k) (ready s₀ q) new (s.session k).loop

/-- A report takes its address out of a list without repetitions. -/
theorem not_ready_of_report {w w' : World π Channel} {l : Label π Channel} {call : ℕ} {ip : IpAddr}
    (h : w.step l = some w') (ha : l.actor = .task (.report call ip))
    (ht : (w.pool l.pool).task (.report call ip) = .report (.remove ip))
    (hnodup : (w.pool l.pool).lists.readyIps.Nodup) : ip ∉ (w'.pool l.pool).lists.readyIps := by
  have hm := (World.step_move h).2.2.1
  have hwrite : (w.pool l.pool).write l.actor l.input = .remove ip := by
    simp [ha,Pool.write,ht,Task.write]
  rw [Lists.readyIps,ReadyChannels.ips,hm.lists.1,hwrite]
  exact (not_mem_keys_removeFirst_iff Prod.fst ip _).mpr (List.nodup_iff_count_le_one.mp hnodup ip)

/-- A step of the world at which the request stands still. -/
theorem At.turn {w w' : World π Channel} {l : Label π Channel} {q : π} {call : ℕ}
    {ips new : List IpAddr} {loop : Option (WithRetry Response Channel)}
    (hs : At (w.pool q) call ips new loop) (h : w.step l = some w')
    (hnodup : (w.pool q).lists.readyIps.Nodup) (hips : (w.pool q).lists.readyIps ⊆ ips)
    (hshrinks : (w'.pool q).lists.readyIps ⊆ (w.pool q).lists.readyIps) :
    At (w'.pool q) call ips new loop := by
  have hgone {left : List IpAddr} (hleft : ∀ ip ∈ left, ip ∉ (w.pool q).lists.readyIps) :
      ∀ ip ∈ left, ip ∉ (w'.pool q).lists.readyIps := fun ip hip hmem => hleft ip hip (hshrinks hmem)
  match loop,hs with
  | some (.head _),hs | some (.sleep _ _),hs => exact hgone hs
  | some (.getChannel _),hs =>
    refine ⟨hgone hs.1,fun e he => ?_⟩
    rcases given_of_step h he with hold | ⟨-,-,-,hmem⟩
    · exact hs.2 e hold
    · have hready : e.1 ∈ (w.pool q).lists.readyIps := List.mem_map_of_mem hmem
      exact ⟨hips hready,fun hnew => hs.1 e.1 hnew hready⟩
  | some (.call _ ip _),⟨left,hnew,hleft⟩ => exact ⟨left,hnew,hgone hleft⟩
  | some (.reportBroken _ ip _ _),⟨left,hnew,hleft,hreport⟩ =>
    refine ⟨left,hnew,hgone hleft,?_⟩
    rcases hreport with ht | hnot
    · by_cases hl : l.pool = q ∧ l.actor = .task (.report call ip)
      · obtain ⟨rfl,ha⟩ := hl
        exact .inr (not_ready_of_report h ha ht hnodup)
      · left
        have hsame := World.pool_step
          (I := fun p => p.task (.report call ip) = (w.pool q).task (.report call ip)) h rfl
          (fun hq hm => hm.task_of_not_future (by simp) (fun ha => hl ⟨hq,ha⟩))
        exact hsame.trans ht
    · exact .inr (fun hmem => hnot (hshrinks hmem))
  | some (.returned _),_ | some .panicked,_ | none,_ => trivial

omit [DecidableEq π] in
theorem Gives.ready_nodup {k : ℕ} {q : π} {s₀ s : Clients π Channel Response} {new : List IpAddr}
    (hs : Gives k q s₀ new s) (hnodup : (ready s₀ q).Nodup) : (ready s q).Nodup := by
  obtain ⟨l,hperm,hsub⟩ := hs.shrunk
  exact hperm.nodup_iff.mp (hsub.nodup hnodup)

/-- A step in which the request stands still, or is gone. -/
theorem Gives.still {k : ℕ} {q : π} {s₀ s s' : Clients π Channel Response} {new : List IpAddr}
    (hs : Gives k q s₀ new s) (hnodup : (ready s₀ q).Nodup)
    (hshrinks : (ready s' q).Subperm (ready s q))
    (hworld : s'.world = s.world ∨ ∃ l, s.world.step l = some s'.world)
    (hsession : s'.session k = s.session k ∨
      s'.session k = { (s.session k) with loop := none }) : Gives k q s₀ new s' := by
  have hready := hshrinks.trans hs.shrunk
  have hcall : s'.call k = s.call k := by
    rcases hsession with hsame | hgone
    · rw [call,call,hsame]
    · rw [call,call,hgone]
  have hstands : At (s'.world.pool q) (s'.call k) (ready s₀ q) new (s.session k).loop := by
    rw [hcall]
    rcases hworld with hw | ⟨l,hl⟩
    · rw [hw]
      exact hs.stands
    · exact hs.stands.turn hl (hs.ready_nodup hnodup) hs.shrunk.subset hshrinks.subset
  rcases hsession with hsame | hgone
  · rw [← hsame] at hstands
    exact ⟨hready,hsame ▸ hs.attempted,hs.nodup,hs.subset,hsame ▸ hs.rounds,hstands⟩
  · refine ⟨hready,?_,hs.nodup,hs.subset,?_,?_⟩ <;> rw [hgone]
    · exact hs.attempted
    · exact hs.rounds.le
    · trivial

omit [DecidableEq π] in
/-- The request goes on without a new round and without a new address. -/
theorem Gives.goOn {k : ℕ} {q : π} {s₀ s : Clients π Channel Response} {new : List IpAddr}
    {loop : Option (WithRetry Response Channel)} (hs : Gives k q s₀ new s)
    (hrounds : Rounds ((s₀.session k).round + new.length) (s.session k).round loop)
    (hstands : At (s.world.pool q) (s.call k) (ready s₀ q) new loop) :
    Gives k q s₀ new (s.setSession k { (s.session k) with loop := loop }) := by
  refine ⟨hs.shrunk,?_,hs.nodup,hs.subset,?_,?_⟩ <;>
    simp only [setSession,call,Function.update_self]
  · exact hs.attempted
  · exact hrounds
  · exact hstands

omit [DecidableEq π] in
/-- A step of the loop of the request itself. -/
theorem Gives.hears {k : ℕ} {s₀ s : Clients π Channel Response} {new : List IpAddr}
    {x : Act π Channel Response} {p p' : WithRetry Response Channel}
    {a : WithRetry.Answer Response Channel} (hs : Gives k (pool k) s₀ new s)
    (hnumbered : Numbered pool s) (hcondemns : Condemns policy k s x)
    (hx : ∀ result, a = .response result → x = .responded k result)
    (hp : (s.session k).loop = some p) (hheard : Heard pool s k p a)
    (hgoes : WithRetry.Goes (policy k) checks p a p') :
    ∃ new', Gives k (pool k) s₀ new' (s.setSession k ((s.session k).next p' a)) := by
  have hstands := hs.stands
  have hrounds := hs.rounds
  rw [hp] at hstands hrounds
  cases hgoes with
  | @counts tries n hcount =>
    refine ⟨new,hs.shrunk,?_,hs.nodup,hs.subset,?_,?_⟩ <;>
      simp only [setSession,call,Function.update_self,Session.next]
    · exact hs.attempted
    · exact congrArg (· + 1) hrounds
    · refine ⟨hstands,fun e he => ?_⟩
      rw [(hnumbered.later k _ (Nat.lt_succ_self _)).1] at he
      cases he
  | @finds tries ip channel =>
    have hgiven : given ((s.world.pool (pool k)).get (s.call k)) = some (ip,channel) :=
      congrArg given hheard
    obtain ⟨hips,hnew⟩ := hstands.2 _ hgiven
    have hnodup : (new ++ [ip]).Nodup := List.nodup_append.mpr ⟨hs.nodup,List.nodup_singleton ip,
      fun a ha b hb => by rintro rfl; exact hnew (List.mem_singleton.mp hb ▸ ha)⟩
    have hsubset : new ++ [ip] ⊆ ready s₀ (pool k) :=
      List.append_subset.mpr ⟨hs.subset,by simpa using hips⟩
    refine ⟨new ++ [ip],hs.shrunk,?_,hnodup,hsubset,?_,?_⟩ <;>
      simp only [setSession,call,Function.update_self,Session.next]
    · rw [hs.attempted,List.append_assoc]
    · rw [List.length_append]
      exact hrounds
    · exact ⟨new,rfl,hstands.1⟩
  | overflows => exact ⟨new,hs.goOn hrounds.le trivial⟩
  | exhausts => exact ⟨new,hs.goOn hrounds.le trivial⟩
  | succeeds => exact ⟨new,hs.goOn hrounds.le trivial⟩
  | @dead tries ip channel e time hdead =>
    obtain ⟨left,hnew,hleft⟩ := hstands
    exact ⟨new,hs.goOn hrounds ⟨left,hnew,hleft,.inl (hnumbered.call k _ _ _ hp ip)⟩⟩
  | @alive tries ip channel e time halive =>
    have hdead := hcondemns e tries ip channel (hx _ rfl) hp
    rw [halive] at hdead
    cases hdead
  | @reported tries ip e time =>
    obtain ⟨left,rfl,hleft,hreport⟩ := hstands
    have hidle : (s.world.pool (pool k)).task (.report (s.call k) ip) = .idle := hheard
    have hip : ip ∉ ready s (pool k) := hreport.resolve_left (by simp [hidle])
    have hall : ∀ ip' ∈ left ++ [ip], ip' ∉ ready s (pool k) := by
      simpa [or_imp,forall_and] using ⟨hleft,hip⟩
    cases time with
    | doNotRetry => exact ⟨_,hs.goOn hrounds.le trivial⟩
    | immediately => exact ⟨_,hs.goOn hrounds hall⟩
    | after duration => exact ⟨_,hs.goOn hrounds hall⟩
  | slept => exact ⟨new,hs.goOn hrounds hstands⟩

theorem gives_step {k : ℕ} {s₀ s s' : Clients π Channel Response} {x : Act π Channel Response}
    (hnodup : (ready s₀ (pool k)).Nodup) (hnumbered : Numbered pool s)
    (hs : ∃ new, Gives k (pool k) s₀ new s) (hshrinks : Shrinks pool policy checks (pool k) s x)
    (hcondemns : Condemns policy k s x) (h : step pool policy checks s x = some s') :
    ∃ new, Gives k (pool k) s₀ new s' := by
  obtain ⟨new,hs⟩ := hs
  have hgoes := goes_of_step h
  have hstill (hsession : s'.session k = s.session k ∨
      s'.session k = { (s.session k) with loop := none }) : ∃ new, Gives k (pool k) s₀ new s' :=
    ⟨new,hs.still hnodup (hshrinks s' h) hgoes.world hsession⟩
  have hother {j : ℕ} {y : Session Channel Response} (hj : k ≠ j) :
      Function.update s.session j y k = s.session k := Function.update_of_ne hj ..
  cases hgoes with
  | background | gets | reports => exact hstill (.inl rfl)
  | @cancelled j | @dropped j =>
    by_cases hj : k = j
    · subst hj
      exact hstill (.inr (by simp [setSession]))
    · exact hstill (.inl (hother hj))
  | @hears x j p p' a hx hp hheard hloop =>
    by_cases hj : k = j
    · subst hj
      exact hs.hears hnumbered hcondemns hx hp hheard hloop
    · exact hstill (.inl (hother hj))

/-- While no server of its pool becomes ready, and its policy takes every server that fails it
for dead, a request is given each server once at most, whatever the other requests do. So it
begins at most as many rounds as there were servers, and one more. -/
theorem once_of_run {xs ys : List (Act π Channel Response)} {s u : Clients π Channel Response}
    {k : ℕ} {tries : UInt8}
    (hr : run (step pool policy checks) (start World.init) xs = some s)
    (hk : (s.session k).loop = some (.head tries)) (hnodup : (ready s (pool k)).Nodup)
    (hshrinks : Along (step pool policy checks) (Shrinks pool policy checks (pool k)) s ys)
    (hcondemns : Along (step pool policy checks) (Condemns policy k) s ys)
    (hu : run (step pool policy checks) s ys = some u) :
    ∃ new, (u.session k).attempted = (s.session k).attempted ++ new ∧ new.Nodup ∧
      new ⊆ ready s (pool k) ∧ new.length ≤ (ready s (pool k)).length ∧
        (u.session k).round ≤ (s.session k).round + new.length + 1 := by
  have hstart : Gives k (pool k) s [] s := by
    refine ⟨List.Subperm.refl _,(List.append_nil _).symm,List.nodup_nil,List.nil_subset _,?_,?_⟩ <;>
      rw [hk]
    · exact rfl
    · simp [At]
  have hstep (t : Clients π Channel Response) (x : Act π Channel Response)
      (t' : Clients π Channel Response)
      (ht : Numbered pool t ∧ ∃ new, Gives k (pool k) s new t)
      (hx : Shrinks pool policy checks (pool k) t x ∧ Condemns policy k t x)
      (h : step pool policy checks t x = some t') :
      Numbered pool t' ∧ ∃ new, Gives k (pool k) s new t' :=
    ⟨numbered_step ht.1 h,gives_step hnodup ht.1 ht.2 hx.1 hx.2 h⟩
  obtain ⟨-,new,hgives⟩ := run_invariant hstep ⟨numbered_of_run hr,[],hstart⟩
    (hshrinks.and hcondemns) hu
  exact ⟨new,hgives.attempted,hgives.nodup,hgives.subset,
    (List.subperm_of_subset hgives.nodup hgives.subset).length_le,hgives.rounds.le⟩

/-- Two servers are in service. -/
def pair : List (Act Unit ℕ Unit) :=
  [.background (.answered () .dns 0 [.v4 1,.v4 2]),.background (.quiet () (.task .dns) 0),
    .background (.quiet () (.task .dns) 0),.background (.connected () .dns 0 7),
    .background (.quiet () (.task .dns) 0),.background (.quiet () (.task .dns) 0),
    .background (.connected () .dns 0 8),.background (.quiet () (.task .dns) 0)]

/-- One round of a request, whose server refuses the connection. -/
def round (k : ℕ) : List (Act Unit ℕ Unit) :=
  [.goOn k,.getChannel k { now := 0 },.answered k,.responded k (.error WithRetry.refused)]

/-- Two requests share the pool. The first is given the server that has failed the second, whose
report is still to come. -/
def crowd : List (Act Unit ℕ Unit) :=
  round 0 ++ round 1 ++ [.reportBroken 0 { now := 0 },.reportBroken 0 { now := 0 },.reported 0,
    .goOn 0,.getChannel 0 { now := 0 },.answered 0]

/-- The pool of the two requests, under the policy of a client that names none. -/
abbrev shared : Clients Unit ℕ Unit → Act Unit ℕ Unit → Option (Clients Unit ℕ Unit) :=
  step (fun _ => ()) (fun _ => defaultRetryPolicy) false

theorem crowd_runs : (run shared (start World.init) (pair ++ crowd)).isSome := by decide +kernel

theorem crowd_shrinks : ∀ s ∈ run shared (start World.init) pair, ready s () = [.v4 1,.v4 2] ∧
    Along shared (Shrinks (fun _ => ()) (fun _ => defaultRetryPolicy) false ()) s crowd := by
  decide +kernel

theorem crowd_condemns (s : Clients Unit ℕ Unit) :
    Along shared (Condemns (fun _ => defaultRetryPolicy) 0) s crowd := by
  apply along_of_forall
  intro t x hx e tries ip channel hxe _
  rw [hxe] at hx
  obtain rfl : e = WithRetry.refused := by simpa [crowd,round] using hx
  rfl

theorem once_crowd : ∃ s u : Clients Unit ℕ Unit, run shared s crowd = some u ∧
    ∃ new, (u.session 0).attempted = (s.session 0).attempted ++ new ∧ new.Nodup ∧
      new ⊆ [.v4 1,.v4 2] ∧ new.length ≤ 2 ∧
        (u.session 0).round ≤ (s.session 0).round + new.length + 1 := by
  obtain ⟨u,hrun⟩ := Option.isSome_iff_exists.mp crowd_runs
  obtain ⟨s,hs,hu⟩ := run_append.mp hrun
  obtain ⟨hready,hshrinks⟩ := crowd_shrinks s hs
  have hloop : (s.session 0).loop = some (.head 0) := by
    cases hs
    rfl
  obtain ⟨new,hnew⟩ := once_of_run hs hloop (by rw [hready]; decide) hshrinks (crowd_condemns s) hu
  rw [hready] at hnew
  exact ⟨s,u,hu,new,hnew⟩

end Run

end Crowd
end SodaPool
