import SodaPool.Clients
import SodaPool.Provenance

/-!
# Who is blamed

A generated client reports the address that it was given together with the channel of the
request that failed. So the server that is taken out of service is the one the request was
sent to, and nothing but a verdict of the policy, or the domain, takes it out.
-/

namespace SodaPool
namespace Blame

open Containers Transition Clients Provenance

variable {π Channel Response : Type}

/-- A task at a report is a call of `report_broken` and takes out the address of the call; such
a call is at nothing else. -/
structure Filed (p : Pool Channel) : Prop where
  reports : ∀ id r, p.task id = .report r →
    ∃ call ip, id = .report call ip ∧ ∀ ip', r = .remove ip' → ip' = ip
  calls : ∀ call ip, p.task (.report call ip) = .idle ∨ ∃ r, p.task (.report call ip) = .report r

theorem filed_init : Filed (Pool.init : Pool Channel) := by
  refine ⟨fun id r h => ?_,fun call ip => .inr ⟨_,rfl⟩⟩
  cases id with
  | report call ip =>
    refine ⟨call,ip,rfl,fun ip' hr => ?_⟩
    cases h
    exact (Report.remove.inj hr).symm
  | dns | doctor | future => cases h

theorem filed_of_move {p p' : Pool Channel} {actor : Actor} {i : Input Channel} (hp : Filed p)
    (hm : p.Move actor i p') : Filed p' := by
  constructor
  · intro id r h
    rcases hm.task_cases id with hsame | hfresh | ⟨lists,-,hown⟩
    · exact hp.reports id r (hsame ▸ h)
    · rw [h] at hfresh
      exact hfresh.elim
    · rw [h] at hown
      have hstep := Task.taskStep_of_step hown
      generalize ht : p.task id = t at hstep
      generalize ht' : Task.report r = t' at hstep
      cases hstep with
      | @remove ip =>
        cases ht'
        obtain ⟨call,ip',rfl,-⟩ := hp.reports id _ ht
        exact ⟨call,ip',rfl,fun _ hr => nomatch hr⟩
      | checkDnsEnds | add | reAdd | insert => cases id <;> simp at ht'
      | checkDns | connected | refused | taken | waits => cases ht'
  · intro call ip
    by_cases ha : actor = .task (.report call ip)
    · subst ha
      have hstep := Task.taskStep_of_step (hm.task_own (by simp))
      rcases hp.calls call ip with hidle | ⟨r,hr⟩
      · rw [hidle] at hstep
        cases hstep
      · rw [hr] at hstep
        generalize p'.task (.report call ip) = t' at hstep
        generalize p'.lists = s' at hstep
        cases hstep with
        | remove => exact .inr ⟨_,rfl⟩
        | insert => exact .inl rfl
    · rw [hm.task_of_not_future (by simp) ha]
      exact hp.calls call ip

/-- An address leaves the ready list when a `check_dns` publishes a list without it, or in a
report of that address. -/
theorem leaves_of_move {p p' : Pool Channel} {actor : Actor} {i : Input Channel} {ip : IpAddr}
    (hp : Filed p) (hm : p.Move actor i p') (hbefore : ip ∈ p.lists.readyIps)
    (hafter : ip ∉ p'.lists.readyIps) :
    (∃ id l, actor = .task id ∧ p.task id = .checkDns (.replaceReady l) ∧
        ip ∉ keys Prod.fst l.ready) ∨
      ∃ call, actor = .task (.report call ip) := by
  rw [Lists.readyIps,ReadyChannels.ips,hm.lists.1] at hafter
  cases hw : p.write actor i with
  | replaceReady new =>
    rw [hw] at hafter
    obtain ⟨id,l,ha,hl,rfl⟩ := Pool.write_eq_replaceReady hw
    exact .inl ⟨id,l,ha,hl,hafter⟩
  | remove ip' =>
    right
    rw [hw] at hafter
    cases actor with
    | task id =>
      have ht := Task.write_eq_remove hw
      obtain ⟨call,ip'',rfl,hip⟩ := hp.reports id _ ht
      obtain rfl := hip ip' rfl
      by_cases hne : ip = ip'
      · exact ⟨call,by rw [hne]⟩
      · exact absurd (mem_keys_removeFirst_of_ne Prod.fst hbefore hne) hafter
    | get call => cases hw
    | cancel call => cases hw
  | add ip' channel =>
    rw [hw] at hafter
    simp only [Write.ready,List.map_append,List.mem_append,not_or] at hafter
    exact absurd hbefore hafter.1
  | nothing | replaceBroken | insert | pop =>
    rw [hw] at hafter
    exact absurd hbefore hafter

section Run

variable [DecidableEq π]

/-- The step ends in a connection of a pool to the endpoint of an address. -/
def Dials (q : π) (e : IpAddr × Channel) (s s' : Clients π Channel Response) : Prop :=
  ∃ l, s.world.step l = some s'.world ∧ Connects q e s.world l

variable (pool : ℕ → π) (policy : ℕ → RetryPolicy) (checks : Bool)

/-- The channel is what a connection to the address gave, in an earlier step. -/
def Connected (q : π) (xs : List (Act π Channel Response)) (e : IpAddr × Channel) : Prop :=
  ∃ pre x post s s', xs = pre ++ x::post ∧
    run (step pool policy checks) (start World.init) pre = some s ∧
      step pool policy checks s x = some s' ∧ Dials q e s s'

/-- The request `k` has sent its request to the server of the address, over a channel that was
connected to it, and its policy has taken the server for dead after the error. -/
def Blamed (k : ℕ) (xs : List (Act π Channel Response)) (ip : IpAddr) (e : Status)
    (time : RetryTime) : Prop :=
  ∃ pre post s tries channel, xs = pre ++ .responded k (.error e)::post ∧
    run (step pool policy checks) (start World.init) pre = some s ∧
      (s.session k).loop = some (.call tries ip channel) ∧
        policy k e tries = (.dead,time) ∧ Connected pool policy checks (pool k) pre (ip,channel)

/-- Every pair in the pools and every channel of a request in flight is in `R`. -/
structure Honest (R : π → IpAddr × Channel → Prop) (s : Clients π Channel Response) : Prop where
  pools : ∀ q, Paired (R q) (s.world.pool q)
  calls : ∀ k tries ip channel, (s.session k).loop = some (.call tries ip channel) →
    R (pool k) (ip,channel)

variable {pool policy checks}

theorem honest_step {R : π → IpAddr × Channel → Prop} {s s' : Clients π Channel Response}
    {x : Act π Channel Response} (hs : Honest pool R s)
    (hR : ∀ q e, Dials q e s s' → R q e) (h : step pool policy checks s x = some s') :
    Honest pool R s' := by
  have hgoes := goes_of_step h
  have hpools : ∀ q, Paired (R q) (s'.world.pool q) := by
    intro q
    rcases hgoes.world with hsame | ⟨l,hl⟩
    · rw [hsame]
      exact hs.pools q
    · exact paired_step (hs.pools q) (fun e he => hR q e ⟨l,hl,he⟩) hl
  refine ⟨hpools,fun k tries ip channel hk => ?_⟩
  have hfares := hgoes.fares k
  generalize s'.session k = y at hfares hk
  cases hfares with
  | still => exact hs.calls k tries ip channel hk
  | gone => cases hk
  | hears hx hp hheard hloop =>
    obtain ⟨rfl,rfl⟩ := (Option.some.inj hk ▸ hloop).of_call
    have hgiven : given ((s.world.pool (pool k)).get (s.call k)) = some (ip,channel) :=
      congrArg given hheard
    exact (hs.pools (pool k)).calls _ _ hgiven

theorem honest_of_run {xs : List (Act π Channel Response)} {u : Clients π Channel Response}
    (hr : run (step pool policy checks) (start World.init) xs = some u) :
    Honest pool (fun q => Connected pool policy checks q xs) u := by
  have halong : Along (step pool policy checks) (fun s x => ∀ s', step pool policy checks s x = some s' →
      ∀ q e, Dials q e s s' → Connected pool policy checks q xs e) (start World.init) xs :=
    along_of_split (fun pre x post s hsplit hpre s' hs' q e he =>
      ⟨pre,x,post,s,s',hsplit,hpre,hs',he⟩)
  have hstart : Honest pool (fun q => Connected pool policy checks q xs)
      (start World.init : Clients π Channel Response) :=
    ⟨fun q => paired_init _,fun k tries ip channel hk => by cases hk⟩
  exact run_invariant (fun _ _ s' hs hR h => honest_step hs (hR s' h) h) hstart halong hr

/-- The step in which a request comes to its report. -/
theorem responded_of_step {s s' : Clients π Channel Response} {x : Act π Channel Response} {k : ℕ}
    {tries : UInt8} {ip : IpAddr} {e : Status} {time : RetryTime}
    (h : step pool policy checks s x = some s')
    (hbefore : (s.session k).loop ≠ some (.reportBroken tries ip e time))
    (hafter : (s'.session k).loop = some (.reportBroken tries ip e time)) :
    x = .responded k (.error e) ∧ policy k e tries = (.dead,time) ∧
      ∃ channel, (s.session k).loop = some (.call tries ip channel) := by
  have hfares := (goes_of_step h).fares k
  generalize s'.session k = y at hfares hafter
  cases hfares with
  | still => exact absurd hafter hbefore
  | gone => cases hafter
  | hears hx hp hheard hloop =>
    obtain ⟨channel,rfl,rfl,hdead⟩ := (Option.some.inj hafter ▸ hloop).of_reportBroken
    exact ⟨hx _ rfl,hdead,channel,hp⟩

theorem blamed_of_run {xs : List (Act π Channel Response)} {u : Clients π Channel Response}
    (hr : run (step pool policy checks) (start World.init) xs = some u) {k : ℕ} {tries : UInt8}
    {ip : IpAddr} {e : Status} {time : RetryTime}
    (hk : (u.session k).loop = some (.reportBroken tries ip e time)) :
    Blamed pool policy checks k xs ip e time := by
  have hnot : ¬ ((start World.init : Clients π Channel Response).session k).loop =
      some (.reportBroken tries ip e time) := by
    intro h
    cases h
  obtain ⟨pre,x,post,s,s',rfl,hpre,hstep,hbefore,hafter⟩ := exists_change
    (Q := fun u : Clients π Channel Response =>
      (u.session k).loop = some (.reportBroken tries ip e time)) hnot hr hk
  obtain ⟨rfl,hdead,channel,hcall⟩ := responded_of_step hstep hbefore hafter
  exact ⟨pre,post,s,tries,channel,rfl,hpre,hcall,hdead,
    (honest_of_run hpre).calls k tries ip channel hcall⟩

/-- A request is sent over a channel that was connected to the address it was given with, and
the address it reports is the one its failed request was sent to. -/
theorem blames_of_run {xs : List (Act π Channel Response)} {u : Clients π Channel Response}
    (hr : run (step pool policy checks) (start World.init) xs = some u) (k : ℕ) :
    (∀ tries ip channel, (u.session k).loop = some (.call tries ip channel) →
        Connected pool policy checks (pool k) xs (ip,channel)) ∧
      ∀ tries ip e time, (u.session k).loop = some (.reportBroken tries ip e time) →
        Blamed pool policy checks k xs ip e time :=
  ⟨(honest_of_run hr).calls k,fun _ _ _ _ hk => blamed_of_run hr hk⟩

theorem filed_of_run {xs : List (Act π Channel Response)} {u : Clients π Channel Response}
    (hr : run (step pool policy checks) (start World.init) xs = some u) (q : π) :
    Filed (u.world.pool q) := by
  obtain ⟨ls,hls⟩ := world_of_run hr
  exact World.run_pool (fun _ _ _ _ hp hm => filed_of_move hp hm) filed_init hls

/-- The server of the only request refuses the connection. -/
def failing : List (Act Unit ℕ Unit) :=
  [.background (.answered () .dns 0 [.v4 1]),.background (.quiet () (.task .dns) 0),
    .background (.quiet () (.task .dns) 0),.background (.connected () .dns 0 7),
    .background (.quiet () (.task .dns) 0),.goOn 0,.getChannel 0 { now := 0 },.answered 0,
    .responded 0 (.error WithRetry.refused)]

theorem failing_run : ∃ u v : Clients Unit ℕ Unit,
    run (step (fun _ => ()) (fun _ => defaultRetryPolicy) false) (start World.init) failing = some u ∧
      (u.session 0).loop = some (.reportBroken 1 (.v4 1) WithRetry.refused .immediately) ∧
      (u.world.pool ()).lists.readyIps = [.v4 1] ∧
      step (fun _ => ()) (fun _ => defaultRetryPolicy) false u (.reportBroken 0 { now := 0 }) = some v ∧
      (v.world.pool ()).lists.readyIps = [] := ⟨_,_,rfl,rfl,rfl,rfl,rfl⟩

theorem blames_failing : Blamed (fun _ => ()) (fun _ => defaultRetryPolicy) false 0 failing (.v4 1)
    WithRetry.refused .immediately := by
  obtain ⟨u,v,hu,hloop,-⟩ := failing_run
  exact (blames_of_run hu 0).2 _ _ _ _ hloop

/-- The ways out of service: a `check_dns` publishes a list without the address, or a request
of a client of the pool reports it, after its own request to that very server has failed and
its policy has taken the server for dead. No other step of any run takes an address out. -/
theorem removed_of_run {xs : List (Act π Channel Response)} {x : Act π Channel Response}
    {s s' : Clients π Channel Response} {q : π} {ip : IpAddr}
    (hr : run (step pool policy checks) (start World.init) xs = some s)
    (h : step pool policy checks s x = some s')
    (hbefore : ip ∈ (s.world.pool q).lists.readyIps)
    (hafter : ip ∉ (s'.world.pool q).lists.readyIps) :
    (∃ id i l, x = .background ⟨q,.task id,i⟩ ∧
        (s.world.pool q).task id = .checkDns (.replaceReady l) ∧ ip ∉ keys Prod.fst l.ready) ∨
      ∃ k i e time, pool k = q ∧ x = .reportBroken k i ∧ Blamed pool policy checks k xs ip e time := by
  have hmove {l : Label π Channel} {w : World π Channel} (hw : s.world.step l = some w)
      (hafter : ip ∉ (w.pool q).lists.readyIps) :
      l.pool = q ∧ (s.world.pool q).Move l.actor l.input (w.pool q) := by
    obtain ⟨-,-,hm,hother⟩ := World.step_move hw
    have hq : l.pool = q := by
      by_contra hq
      rw [hother q (Ne.symm hq)] at hafter
      exact hafter hbefore
    exact ⟨hq,hq ▸ hm⟩
  have hfiled := filed_of_run hr q
  cases goes_of_step h with
  | @background l w hback hw =>
    obtain ⟨q',actor,i⟩ := l
    obtain ⟨rfl,hm⟩ := hmove hw hafter
    rcases leaves_of_move hfiled hm hbefore hafter with ⟨id,l,hid,hl,hnot⟩ | ⟨call,hcall⟩
    · obtain rfl : actor = .task id := hid
      exact .inl ⟨id,i,l,rfl,hl,hnot⟩
    · obtain rfl : actor = .task (.report call ip) := hcall
      cases hback
  | gets hloop hw =>
    obtain ⟨rfl,hm⟩ := hmove hw hafter
    rcases leaves_of_move hfiled hm hbefore hafter with ⟨id,l,hid,-⟩ | ⟨call,hcall⟩
    · cases hid
    · cases hcall
  | @reports k i tries ip' e time w hloop hw =>
    obtain ⟨rfl,hm⟩ := hmove hw hafter
    rcases leaves_of_move hfiled hm hbefore hafter with ⟨id,l,hid,hl,-⟩ | ⟨call,hcall⟩
    · cases hid
      rcases hfiled.calls (s.call k) ip' with hidle | ⟨r,hreport⟩
      · cases hl.symm.trans hidle
      · cases hl.symm.trans hreport
    · cases hcall
      exact .inr ⟨k,i,e,time,rfl,rfl,blamed_of_run hr hloop⟩
  | cancelled hw =>
    obtain ⟨rfl,hm⟩ := hmove hw hafter
    rcases leaves_of_move hfiled hm hbefore hafter with ⟨id,l,hid,-⟩ | ⟨call,hcall⟩
    · cases hid
    · cases hcall
  | hears | dropped => exact absurd hbefore hafter

theorem removed_failing : ∃ e time, Blamed (fun _ => ()) (fun _ => defaultRetryPolicy) false 0
    failing (.v4 1) e time := by
  obtain ⟨u,v,hu,-,hready,hv,hnone⟩ := failing_run
  have hbefore : .v4 1 ∈ (u.world.pool ()).lists.readyIps := by rw [hready]; simp
  have hafter : .v4 1 ∉ (v.world.pool ()).lists.readyIps := by rw [hnone]; simp
  rcases removed_of_run hu hv hbefore hafter with
    ⟨id,i,l,hx,-⟩ | ⟨k,i,e,time,-,hx,hblamed⟩
  · cases hx
  · cases hx
    exact ⟨e,time,hblamed⟩

end Run

end Blame
end SodaPool
