import SodaPool.Starvation

/-!
# What the doctor gets done

When the servers accept connections again, the doctor takes the heap down from the top, where
the latest test time is, and has emptied it after three steps for each entry.
-/

namespace SodaPool
namespace Recovery

open Containers Transition Starvation

variable {π Channel : Type}

/-- Where the doctor stands after `n` steps, when it has taken the entries `v`. -/
inductive Stage (s : Lists Channel) (ready : List IpAddr) (v : List DelayedAddress) (n : ℕ) :
    Task Channel → Prop
  | next {m : NextBroken} : s.readyIps = ready ++ v.map DelayedAddress.address → 3*v.length ≤ n →
      n = 3*v.length ∧ m = .lock ∨ s.broken.addresses = [] → Stage s ready v n (.nextBroken m)
  | connect {before : List DelayedAddress} {e : DelayedAddress} : v = before ++ [e] →
      s.readyIps = ready ++ before.map DelayedAddress.address → n = 3*before.length+1 →
      Stage s ready v n (.recheck (.connect e))
  | add {before : List DelayedAddress} {e : DelayedAddress} {channel : Channel} :
      v = before ++ [e] → s.readyIps = ready ++ before.map DelayedAddress.address →
      n = 3*before.length+2 → Stage s ready v n (.recheck (.add e.address channel))

/-- The entries `v` were on top of the heap, one after the other, and the rest is due. -/
structure Descends (old : List DelayedAddress) (clock : ℕ) (s : Lists Channel)
    (v : List DelayedAddress) : Prop where
  perm : (v ++ s.broken.addresses).Perm old
  sorted : v.Pairwise (· ≥ ·)
  top : ∀ d ∈ s.broken.addresses, ∀ e ∈ v, d ≤ e
  due : ∀ d ∈ s.broken.addresses, d.nextTestTime.nanos ≤ clock

theorem Descends.congr {old : List DelayedAddress} {clock clock' : ℕ} {s s' : Lists Channel}
    {v : List DelayedAddress} (h : Descends old clock s v) (hle : clock ≤ clock')
    (hs : s'.broken.addresses = s.broken.addresses) : Descends old clock' s' v := by
  obtain ⟨hperm,hsorted,htop,hdue⟩ := h
  rw [← hs] at hperm htop hdue
  exact ⟨hperm,hsorted,htop,fun d hd => (hdue d hd).trans (by exact_mod_cast hle)⟩

theorem Descends.taken {old : List DelayedAddress} {clock now : ℕ} {s s' : Lists Channel}
    {v : List DelayedAddress} {e : DelayedAddress} (h : Descends old clock s v) (hle : clock ≤ now)
    (he : e ∈ s.broken.addresses) (hmax : ∀ d ∈ s.broken.addresses, d ≤ e)
    (hs : s'.broken.addresses = s.broken.addresses.erase e) : Descends old now s' (v ++ [e]) := by
  have hmem {d : DelayedAddress} (hd : d ∈ s'.broken.addresses) : d ∈ s.broken.addresses := by
    rw [hs] at hd
    exact List.mem_of_mem_erase hd
  refine ⟨?_,?_,fun d hd e' he' => ?_,fun d hd => ?_⟩
  · rw [hs,List.append_assoc]
    exact ((List.perm_cons_erase he).symm.append_left v).trans h.perm
  · rw [List.pairwise_append]
    refine ⟨h.sorted,List.pairwise_singleton ..,fun d hd e' he' => ?_⟩
    obtain rfl := List.mem_singleton.mp he'
    exact h.top _ he d hd
  · rcases List.mem_append.mp he' with he' | he'
    · exact h.top d (hmem hd) e' he'
    · obtain rfl := List.mem_singleton.mp he'
      exact hmax d (hmem hd)
  · exact (h.due d (hmem hd)).trans (by exact_mod_cast hle)

/-- A doctor that does not find an entry has none, as all are due. -/
theorem addresses_of_waits {n n' : NextBroken} {b b' : BrokenEndpoints} {now clock : ℕ} {timer : Bool}
    (h : n.step b now timer = some (b',.inr n')) (hle : clock ≤ now)
    (hdue : ∀ d ∈ b.addresses, d.nextTestTime.nanos ≤ clock) :
    b'.addresses = b.addresses ∧ (n = .lock → b.addresses = []) := by
  have hsame : b'.addresses = b.addresses := by
    generalize hr : (b',Sum.inr n') = r at h
    cases NextBroken.step_outcome h <;> cases hr <;> rfl
  refine ⟨hsame,?_⟩
  rintro rfl
  cases hround : b.nextRound now with
  | found entry rest => simp [NextBroken.step,hround] at h
  | sleep durr =>
    obtain ⟨d,hd,-,hlt,-⟩ := BrokenEndpoints.nextRound_eq_sleep hround
    have hd' : d.nextTestTime.nanos ≤ now := (hdue d hd).trans (by exact_mod_cast hle)
    exact absurd ((d.tracker.nextTestTime_le_utc_iff now).mpr hd') (not_le_of_gt hlt)
  | wait => exact BrokenEndpoints.nextRound_eq_wait.mp hround

/-- A step of the doctor whose attempts succeed. -/
theorem stage_step {old : List DelayedAddress} {ready : List IpAddr} {clock n : ℕ}
    {s s' : Lists Channel} {i : Input Channel} {t t' : Task Channel} {v : List DelayedAddress}
    (h : Task.TaskStep .doctor s i t s' t') (hle : clock ≤ i.now)
    (hok : ∀ e, t = .recheck (.connect e) → i.outcome.isSome)
    (hd : Descends old clock s v) (ht : Stage s ready v n t) :
    ∃ v', Descends old i.now s' v' ∧ Stage s' ready v' (n+1) t' := by
  cases ht with
  | @next m hready hn hpoint =>
    cases h with
    | @taken _ b entry hstep =>
      obtain ⟨⟨hmem,hmax⟩,-,hb⟩ := clings_of_taken hstep
      obtain ⟨rfl,-⟩ := hpoint.resolve_right (List.ne_nil_of_mem hmem)
      exact ⟨v ++ [entry],hd.taken hle hmem hmax hb,.connect rfl hready rfl⟩
    | @waits _ n' b hstep =>
      obtain ⟨hsame,hnone⟩ := addresses_of_waits hstep hle hd.due
      have hempty : s.broken.addresses = [] := hpoint.elim (fun h => hnone h.2) id
      exact ⟨v,hd.congr hle hsame,.next hready (hn.trans n.le_succ) (.inr (hsame.trans hempty))⟩
  | @connect before e hv hready hn =>
    cases h with
    | @connected _ channel ho =>
      exact ⟨v,hd.congr hle rfl,.add hv hready (congrArg (· + 1) hn)⟩
    | refused ho => simpa [ho] using hok e rfl
  | @add before e channel hv hready hn =>
    cases h
    refine ⟨v,hd.congr hle rfl,.next ?_ ?_ (.inl ⟨?_,rfl⟩)⟩
    · change ((s.ready.add e.address channel).channels.map Prod.fst) = _
      have hchannels : s.ready.channels.map Prod.fst = ready ++ before.map DelayedAddress.address :=
        hready
      simp [ReadyChannels.add,hchannels,hv]
    · simp [hv,hn]
      omega
    · simp [hv,hn]
      omega

theorem Descends.length {old : List DelayedAddress} {clock : ℕ} {s : Lists Channel}
    {v : List DelayedAddress} (h : Descends old clock s v) :
    v.length + s.broken.addresses.length = old.length := by
  rw [← List.length_append]
  exact h.perm.length_eq

/-- After three steps for each entry the doctor has none left. -/
theorem Stage.emptied {old v : List DelayedAddress} {ready : List IpAddr} {clock n : ℕ}
    {s : Lists Channel} {t : Task Channel} (ht : Stage s ready v n t) (hd : Descends old clock s v)
    (hn : 3*old.length ≤ n) : s.broken.addresses = [] ∧ v.Perm old ∧
      s.readyIps = ready ++ v.map DelayedAddress.address := by
  have hlength := hd.length
  cases ht with
  | next hready hle hpoint =>
    have hempty : s.broken.addresses = [] := by
      rcases hpoint with ⟨hn',-⟩ | hempty
      · apply List.eq_nil_of_length_eq_zero
        omega
      · exact hempty
    have hperm := hd.perm
    rw [hempty,List.append_nil] at hperm
    exact ⟨hempty,hperm,hready⟩
  | connect hv _ hn' =>
    rw [hv,List.length_append,List.length_singleton] at hlength
    omega
  | add hv _ hn' =>
    rw [hv,List.length_append,List.length_singleton] at hlength
    omega

/-- Before that it can take a step. -/
theorem Stage.isSome {old v : List DelayedAddress} {ready : List IpAddr} {clock n : ℕ}
    {s : Lists Channel} {t : Task Channel} (ht : Stage s ready v n t) (hd : Descends old clock s v)
    (hn : n < 3*old.length) (i : Input Channel) : (t.step .doctor s i).isSome := by
  have hlength := hd.length
  cases ht with
  | next hready hle hpoint =>
    rcases hpoint with ⟨-,rfl⟩ | hempty
    · simp only [Task.step,NextBroken.step,Option.isSome_map]
      cases s.broken.nextRound i.now <;> rfl
    · rw [hempty,List.length_nil] at hlength
      omega
  | connect => rfl
  | add => rfl

/-- The doctor of the pool connects when it tries to, and nobody else writes to the lists. -/
def Healthy (q : π) (w : World π Channel) (l : Label π Channel) : Prop :=
  l.pool = q → l.actor = .task .doctor ∧
      (∀ e, (w.pool q).task .doctor = .recheck (.connect e) → l.input.outcome.isSome) ∨
    l.actor ≠ .task .doctor ∧ w.write l = .nothing

variable [DecidableEq π]

/-- The step is one of the doctor of the pool. -/
def works (q : π) (_ : World π Channel) (l : Label π Channel) : Bool :=
  l.pool = q ∧ l.actor = .task .doctor

/-- After `n` steps of the doctor. -/
def Heals (q : π) (old : List DelayedAddress) (ready : List IpAddr) (w : World π Channel) (n : ℕ) :
    Prop :=
  ∃ v, Descends old w.clock (w.pool q).lists v ∧
    Stage (w.pool q).lists ready v n ((w.pool q).task .doctor)

omit [DecidableEq π] in
theorem Stage.congr {s s' : Lists Channel} {ready : List IpAddr} {v : List DelayedAddress} {n : ℕ}
    {t : Task Channel} (h : Stage s ready v n t) (hready : s'.readyIps = s.readyIps)
    (hbroken : s'.broken.addresses = s.broken.addresses) : Stage s' ready v n t := by
  cases h with
  | next h₁ h₂ h₃ => exact .next (hready.trans h₁) h₂ (by rwa [hbroken])
  | connect h₁ h₂ h₃ => exact .connect h₁ (hready.trans h₂) h₃
  | add h₁ h₂ h₃ => exact .add h₁ (hready.trans h₂) h₃

theorem heals_step {q : π} {old : List DelayedAddress} {ready : List IpAddr} {w w' : World π Channel}
    {l : Label π Channel} {n : ℕ} (hw : Heals q old ready w n) (hl : Healthy q w l)
    (h : w.step l = some w') : Heals q old ready w' (n + (works q w l).toNat) := by
  obtain ⟨v,hd,ht⟩ := hw
  obtain ⟨hle,hclock,hm,hother⟩ := World.step_move h
  obtain ⟨q',actor,i⟩ := l
  dsimp only at hle hclock hm hother
  have hquiet (hne : ¬ (q' = q ∧ actor = .task .doctor))
      (hready : (w'.pool q).lists.readyIps = (w.pool q).lists.readyIps)
      (hbroken : (w'.pool q).lists.broken.addresses = (w.pool q).lists.broken.addresses)
      (htask : (w'.pool q).task .doctor = (w.pool q).task .doctor) :
      Heals q old ready w' (n + (works q w ⟨q',actor,i⟩).toNat) := by
    have hworks : works q w ⟨q',actor,i⟩ = false := by simpa [works] using hne
    rw [hworks]
    exact ⟨v,hd.congr (hclock ▸ hle) hbroken,htask ▸ ht.congr hready hbroken⟩
  by_cases hq : q' = q
  · subst hq
    rcases hl rfl with ⟨hactor,hok⟩ | ⟨hactor,hwrite⟩
    · obtain rfl : actor = .task .doctor := hactor
      have hown := Task.taskStep_of_step (hm.task_own (by simp))
      obtain ⟨v',hd',ht'⟩ := stage_step hown hle hok hd ht
      have hworks : works q' w ⟨q',.task .doctor,i⟩ = true := by simp [works]
      rw [hworks]
      exact ⟨v',hclock ▸ hd',ht'⟩
    · have hlists := hm.lists
      rw [show (w.pool q').write actor i = .nothing from hwrite] at hlists
      exact hquiet (fun h => hactor h.2) (congrArg (List.map Prod.fst) hlists.1) hlists.2
        (hm.task_of_not_future (by simp) hactor)
  · have hsame := hother q (Ne.symm hq)
    exact hquiet (fun h => hq h.1) (by rw [hsame]) (by rw [hsame]) (by rw [hsame])

theorem step_isSome {w : World π Channel} {q : π} {i : Input Channel} (hle : w.clock ≤ i.now)
    (h : (((w.pool q).task .doctor).step .doctor (w.pool q).lists i).isSome) :
    (w.step ⟨q,.task .doctor,i⟩).isSome := by
  obtain ⟨r,hr⟩ := Option.isSome_iff_exists.mp h
  have hstep : (w.pool q).stepTask .doctor i = some
      { w.pool q with lists := r.1, task := Function.update (w.pool q).task .doctor r.2 } := by
    simp only [Pool.stepTask,hr,Option.map_some]
  simp [World.step,not_lt.mpr hle,hstep]

/-- Once all entries are due, as long as the servers accept connections and nobody else writes
to the lists, the doctor is never held up: it takes the entries from the latest test time to the
earliest, and three steps for each leave the heap empty and the addresses ready, in that order. -/
theorem recovers_of_run {w u : World π Channel} {q : π} {ls : List (Label π Channel)}
    (hdoctor : (w.pool q).task .doctor = .nextBroken .lock)
    (hdue : ∀ d ∈ (w.pool q).lists.broken.addresses, d.nextTestTime ≤ DateTime.utc w.clock)
    (hls : Along World.step (Healthy q) w ls) (hr : run World.step w ls = some u) :
    (3*(w.pool q).lists.broken.addresses.length ≤ tally World.step (works q) w ls →
      (u.pool q).lists.broken.addresses = [] ∧
        ∃ v : List DelayedAddress, v.Perm (w.pool q).lists.broken.addresses ∧ v.Pairwise (· ≥ ·) ∧
          (u.pool q).lists.readyIps = (w.pool q).lists.readyIps ++ v.map DelayedAddress.address) ∧
      (tally World.step (works q) w ls < 3*(w.pool q).lists.broken.addresses.length →
        ∀ i : Input Channel, u.clock ≤ i.now → (u.step ⟨q,.task .doctor,i⟩).isSome) := by
  have hstart : Heals q (w.pool q).lists.broken.addresses (w.pool q).lists.readyIps w 0 := by
    refine ⟨[],⟨.refl _,.nil,by simp,fun d hd => ?_⟩,?_⟩
    · exact (d.tracker.nextTestTime_le_utc_iff w.clock).mp (hdue d hd)
    · rw [hdoctor]
      exact .next (by simp) (le_refl _) (.inl ⟨rfl,rfl⟩)
  have hheals := run_tally (fun _ _ _ _ hn hl h => heals_step hn hl h) hstart hls hr
  rw [Nat.zero_add] at hheals
  generalize tally World.step (works q) w ls = n at hheals ⊢
  obtain ⟨v,hd,ht⟩ := hheals
  refine ⟨fun hn => ?_,fun hn i hle => step_isSome hle (ht.isSome hd hn i)⟩
  obtain ⟨hempty,hperm,hready⟩ := ht.emptied hd hn
  exact ⟨hempty,v,hperm,hd.sorted,hready⟩

/-- Two servers are reported broken, and both entries are due when a call is made. -/
def due : List (Label Unit Unit) := reported ++ [.quiet () (.get 0) 2000000000]

def recovering : List (Label Unit Unit) := List.replicate 6 (.connected () .doctor 2000000000 ())

/-- The later report is tested first. -/
theorem recovers_recovering : ∃ w u : World Unit Unit, run World.step World.init due = some w ∧
    run World.step w recovering = some u ∧ (u.pool ()).lists.broken.addresses = [] ∧
      (u.pool ()).lists.readyIps = [.v4 2,.v4 1] := by
  obtain ⟨w,u,hw,hdoctor,hheap,hclock,hu,htally,hips⟩ : ∃ w u : World Unit Unit,
      run World.step World.init due = some w ∧ (w.pool ()).task .doctor = .nextBroken .lock ∧
        (w.pool ()).lists.broken.addresses =
          [DelayedAddress.ofAddress 0 (.v4 1),DelayedAddress.ofAddress 0 (.v4 2)] ∧
        w.clock = 2000000000 ∧ run World.step w recovering = some u ∧
        tally World.step (works ()) w recovering = 6 ∧ (u.pool ()).lists.readyIps = [.v4 2,.v4 1] :=
    ⟨_,_,rfl,rfl,rfl,rfl,rfl,rfl,rfl⟩
  have hdue : ∀ d ∈ (w.pool ()).lists.broken.addresses, d.nextTestTime ≤ DateTime.utc w.clock := by
    rw [hheap,hclock]
    decide
  have hls : Along World.step (Healthy ()) w recovering := by
    apply along_of_forall
    intro s l hl _
    obtain rfl := List.eq_of_mem_replicate hl
    exact .inl ⟨rfl,fun _ _ => rfl⟩
  obtain ⟨hempty,-⟩ := (recovers_of_run hdoctor hdue hls hu).1 (by rw [hheap,htally]; decide)
  exact ⟨w,u,hw,hu,hempty,hips⟩

end Recovery
end SodaPool
