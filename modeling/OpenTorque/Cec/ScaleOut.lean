import OpenTorque.Cec.Fleet

/-! One scale-out: how many VMs it asks for, and how long after the last one of its pool it
comes. -/
namespace OpenTorque.Cec
open Transition

/-- How many VMs a call asks for. -/
def Call.requests : Call → Int
  | .resume _ => 1
  | .ensure request _ => request.count
  | _ => 0

def Pool.scaleDue (p : Pool) (env : Env) (ev : Event) : Prop :=
  p.cooldownUntil ≤ env.now ∧ 0 < p.need ev

instance (p : Pool) (env : Env) (ev : Event) : Decidable (p.scaleDue env ev) :=
  inferInstanceAs (Decidable (_ ∧ _))

/-- The time that a pool rests after a scale-out. -/
def Pool.pause (p : Pool) (cooldown : Duration) : Duration :=
  if p.cooldown ≤ 0 then cooldown else p.cooldown

section
variable {env : Env} {ev : Event} {p : Pool} {cooldown : Duration}

theorem resumeHibernated_spec (env : Env) (ev : Event) (needed resumed : Nat) (p : Pool) :
    let after := resumeHibernated env ev needed resumed p
    (after.2.1 : Int) = resumed + (after.2.2.map Call.requests).sum ∧ after.2.1 ≤ resumed + needed ∧
      after.1.cooldownUntil = p.cooldownUntil := by
  fun_induction resumeHibernated env ev needed resumed p with
  | case1 resumed p => simp
  | case2 needed resumed p none => simp
  | case3 needed resumed p some vmID rest ih =>
    have count : (rest.2.1 : Int) = (resumed + 1 : Nat) + (rest.2.2.map Call.requests).sum := ih.1
    have most : rest.2.1 ≤ resumed + 1 + needed := ih.2.1
    have one : Call.requests (.resume ⟨p.provider, vmID⟩) = 1 := rfl
    simp only [List.map_cons, List.sum_cons, one]
    exact ⟨by omega, by omega, ih.2.2⟩

theorem bindVMs_cooldownUntil (env : Env) (ev : Event) (vms : List VM) (p : Pool) :
    (bindVMs env ev vms p).cooldownUntil = p.cooldownUntil :=
  List.foldlRecOn (motive := fun q : Pool => q.cooldownUntil = p.cooldownUntil) _ _ rfl
    fun _ same _ _ => same

theorem provision_spec (env : Env) (ev : Event) (need : Int) (p : Pool) :
    ((provision env ev need p).2.map Call.requests).sum = need ∧
      (provision env ev need p).1.cooldownUntil = p.cooldownUntil := by
  have asked (answer : Except String (List VM)) :
      ([Call.ensure (ensureRequest p ev need) answer].map Call.requests).sum = need := by
    simp [Call.requests, ensureRequest]
  rw [provision]
  dsimp only
  cases env.ensure (ensureRequest p ev need) with
  | error e => exact ⟨asked _, rfl⟩
  | ok vms => exact ⟨asked _, bindVMs_cooldownUntil env ev vms p⟩

/-- What a scale-out that is due does. -/
theorem scaleOut_due (cooldown : Duration) (due : p.scaleDue env ev) :
    ((scaleOut env cooldown ev p).2.map Call.requests).sum = p.need ev ∧
      (scaleOut env cooldown ev p).1.cooldownUntil = env.now + p.pause cooldown := by
  obtain ⟨count, most, until_⟩ := resumeHibernated_spec env ev (p.need ev).toNat 0
    (p.startCooldown cooldown env.now)
  have needed : ((p.need ev).toNat : Int) = p.need ev := Int.toNat_of_nonneg due.2.le
  unfold scaleOut
  rw [if_neg (not_lt.mpr due.1)]
  dsimp only
  rw [if_neg (not_le.mpr due.2)]
  generalize resumeHibernated env ev (p.need ev).toNat 0 (p.startCooldown cooldown env.now) = resumed
    at count most until_
  by_cases covered : p.need ev - resumed.2.1 ≤ 0
  · rw [if_pos covered]
    exact ⟨by dsimp only; omega, until_⟩
  · obtain ⟨rest, same⟩ := provision_spec env ev (p.need ev - resumed.2.1) resumed.1
    rw [if_neg covered, List.map_append, List.sum_append, rest]
    exact ⟨by omega, same.trans until_⟩

theorem scaleOut_idle (idle : ¬ p.scaleDue env ev) : scaleOut env cooldown ev p = (p, []) := by
  unfold scaleOut
  split
  · rfl
  · dsimp only
    rw [if_pos]
    by_contra short
    exact idle ⟨not_lt.mp ‹_›, not_le.mp short⟩

end

/-! ### The time between two scale-outs -/

section Pause
variable {c : Controller} {env : Env} {a : Action} {q : String} {until_ : Time}

/-- The pool of `q` is not scaled out before `until_`. -/
def Controller.Rests (c : Controller) (q : String) (until_ : Time) : Prop :=
  ∃ p, c.pools.lookup q = some p ∧ until_ ≤ p.cooldownUntil

theorem rests_onPool {f : Pool → Pool × List Call} {queue : String} (rests : c.Rests q until_)
    (kept : ∀ p, (f p).1.cooldownUntil = p.cooldownUntil) : (c.onPool queue f).1.Rests q until_ := by
  obtain ⟨p, found, later⟩ := rests
  by_cases here : q = queue
  · subst here
    exact ⟨_, by rw [onPool_lookup, found]; rfl, (kept p).symm ▸ later⟩
  · exact ⟨p, by rw [onPool_lookup_ne here, found], later⟩

theorem destroy_until (env : Env) (site : ReclaimSite) (p : Pool) (stale : List String) :
    (run (destroyProvisioning env site) p stale).1.cooldownUntil = p.cooldownUntil := by
  refine run_invariant (I := fun k : Pool => k.cooldownUntil = p.cooldownUntil) (fun k _ _ same => ?_) rfl
  unfold destroyProvisioning
  dsimp only
  split <;> exact same

theorem reclaim_until (env : Env) (nodes : Bool) (qname : String) (p : Pool) :
    (reclaimPool env nodes qname p).1.cooldownUntil = p.cooldownUntil := by
  have swept : (sweepProvisioningTimeoutLocked env qname p).1.cooldownUntil = p.cooldownUntil :=
    destroy_until ..
  rw [reclaimPool, reclaimIdleNodes, ← swept]
  split
  · rfl
  · refine run_invariant (I := fun k : Pool => k.cooldownUntil = _) (fun k name _ same => ?_) rfl
    rw [reclaimCandidate_eq, ← same]
    unfold reclaimNodeLocked
    dsimp only
    split_ifs <;> rfl

/-- A rest lasts until it is over. -/
theorem rests_step (rests : c.Rests q until_) (env : Env) (a : Action) :
    (c.step env a).1.Rests q until_ ∨ until_ ≤ env.now := by
  obtain ⟨p, found, later⟩ := id rests
  cases a with
  | setNodeController => exact .inl rests
  | send ev =>
    simp only [Controller.step]
    split <;> exact .inl rests
  | registerNodesUp queue nodes =>
    refine .inl (rests_onPool rests fun p => ?_)
    refine List.foldlRecOn (motive := fun k : Pool => k.cooldownUntil = p.cooldownUntil) nodes _ rfl
      fun k same n _ => ?_
    unfold Pool.nodeUp
    split <;> exact same
  | registerNodesIdle queue idle =>
    refine .inl (rests_onPool rests fun p => ?_)
    refine List.foldlRecOn (motive := fun k : Pool => k.cooldownUntil = p.cooldownUntil) _ _ rfl
      fun k same n _ => ?_
    unfold Pool.markIdle
    split_ifs <;> exact same
  | syncQueuedJobs queue jobIDs => exact .inl (rests_onPool rests fun p => destroy_until ..)
  | reclaimIdle =>
    exact .inl ⟨_, by rw [Controller.step, reclaimIdle_lookup, found]; rfl, (reclaim_until ..).symm ▸ later⟩
  | receive =>
    cases inbox : c.events with
    | nil => exact .inl (by simpa [Controller.step, inbox] using rests)
    | cons ev rest =>
      by_cases here : q = ev.queue
      · subst here
        have pool : (ensurePool c.pools ev).cooldownUntil = p.cooldownUntil := by
          simp [ensurePool, found, Pool.configure]
        rw [← pool] at later
        simp only [Controller.step, inbox, handle]
        by_cases due : (ensurePool c.pools ev).cooldownUntil ≤ env.now
        · exact .inr (later.trans due)
        split
        · refine .inl ⟨_, (put_lookup ..).trans (if_pos rfl), ?_⟩
          rw [scaleOut_idle fun late => due late.1]
          exact later
        all_goals exact .inl ⟨_, (put_lookup ..).trans (if_pos rfl), later⟩
      · obtain ⟨_, lookup, -⟩ := receive_reaches env inbox
        exact .inl ⟨p, by rw [lookup, if_neg here, found], later⟩

theorem rests_run {between : List (Env × Action)} {t : Time} (clock : ∀ l ∈ between, l.1.now ≤ t)
    (rests : c.Rests q until_) :
    (between.foldl (fun c l => (c.step l.1 l.2).1) c).Rests q until_ ∨ until_ ≤ t := by
  induction between generalizing c with
  | nil => exact .inl rests
  | cons l between ih =>
    rw [List.forall_mem_cons] at clock
    rcases rests_step rests l.1 l.2 with still | over_
    · exact ih clock.2 still
    · exact .inr (over_.trans clock.1)

/-- The step resumes or creates VMs for the pool of `q`. -/
def Controller.Scales (c : Controller) (env : Env) (a : Action) (q : String) : Prop :=
  a = .receive ∧ c.events.head?.map (·.queue) = some q ∧ (c.step env a).2 ≠ []

theorem Controller.Scales.due (scales : c.Scales env a q) : ∃ ev rest, c.events = ev :: rest ∧ ev.queue = q ∧
    (ensurePool c.pools ev).scaleDue env
      (coalesceCapacityEvents (ensurePool c.pools ev).queue ev rest) ∧
    c.step env a = handleCapacity env { c with events := rest } ev := by
  obtain ⟨rfl, head, called⟩ := scales
  cases inbox : c.events with
  | nil => simp [inbox] at head
  | cons ev rest =>
    have queue : ev.queue = q := by simpa [inbox] using head
    simp only [Controller.step, inbox, handle] at called ⊢
    split at called
    case h_1 kind =>
      refine ⟨ev, rest, rfl, queue, ?_, rfl⟩
      by_contra idle
      exact called (congrArg Prod.snd (scaleOut_idle idle))
    all_goals exact absurd rfl called

end Pause

end OpenTorque.Cec
