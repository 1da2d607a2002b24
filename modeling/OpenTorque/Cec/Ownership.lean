import OpenTorque.Cec.Fleet

/-! Which VMs the controller asks the provider to destroy. A VM is booting, owned or
hibernated, and never two of these; the timeout sweep nevertheless reads
`ProvisionedAt`, whose stamps outlive the boot of a VM. -/
namespace OpenTorque.Cec
open Transition

/-- A destroy request of the timeout sweep or of the job synchronisation names a VM
that is booting in its pool at the moment of the call. -/
def Call.OnlyBooting : Call → Prop
  | .reclaim .provisioningTimeout pool ref _ _ | .reclaim .queuedJobs pool ref _ _ =>
    ref.vmID ∈ pool.provisioning ∧ ref.vmID ∉ pool.owned ∧ ref.vmID ∉ pool.hibernated
  | _ => True

instance : (call : Call) → Decidable call.OnlyBooting
  | .reclaim .provisioningTimeout _ _ _ _ | .reclaim .queuedJobs _ _ _ _ =>
    inferInstanceAs (Decidable (_ ∧ _ ∧ _))
  | .reclaim .idleNode _ _ _ _ | .ensure _ _ | .resume _ | .drainNode _ | .deregisterNode _ =>
    inferInstanceAs (Decidable True)

/-- A controller with the history of VM identities its provider has returned. -/
structure World where
  controller : Controller := new
  issued : List String := []

def World.step (w : World) (l : Env × Action) : World × List Call :=
  let stepped := w.controller.step l.1 l.2
  (⟨stepped.1, w.issued ++ stepped.2.flatMap Call.issues⟩, stepped.2)

def World.next (w : World) (l : Env × Action) : World := (w.step l).1

/-- The provider answers this step with identities it has not returned before. -/
def World.Fresh (w : World) (l : Env × Action) : Prop :=
  ∀ id ∈ (w.step l).2.flatMap Call.issues, id ∉ w.issued

instance (w : World) (l : Env × Action) : Decidable (w.Fresh l) :=
  inferInstanceAs (Decidable (∀ id ∈ _, id ∉ _))

/-- The three lifecycle maps of a pool are disjoint and hold known VMs only. -/
structure Pool.Separated (issued : List String) (p : Pool) : Prop where
  provisioning_issued : ∀ id ∈ p.provisioning, id ∈ issued
  owned_issued : ∀ id ∈ p.owned, id ∈ issued
  hibernated_issued : ∀ id ∈ p.hibernated, id ∈ issued
  booting_not_owned : ∀ id ∈ p.provisioning, id ∉ p.owned
  booting_not_hibernated : ∀ id ∈ p.provisioning, id ∉ p.hibernated
  owned_not_hibernated : ∀ id ∈ p.owned, id ∉ p.hibernated
  idle_owned : ∀ id ∈ p.idleSince, id ∈ p.owned

def Controller.Separated (issued : List String) (c : Controller) : Prop :=
  ∀ q p, c.pools.lookup q = some p → p.Separated issued

section Moves
variable {old new issued : List String} {s : Fleet} {m : Move} {p : Pool}

/-- The lifecycle sets of a fleet are disjoint and hold known VMs only. During a step the
VMs it brings in are booting. -/
structure Fleet.Separated (old new : List String) (s : Fleet) : Prop where
  booting_issued : ∀ id ∈ s.booting, id ∈ old ++ new
  owned_issued : ∀ id ∈ s.owned, id ∈ old
  suspended_issued : ∀ id ∈ s.suspended, id ∈ old
  booting_not_owned : ∀ id ∈ s.booting, id ∉ s.owned
  booting_not_suspended : ∀ id ∈ s.booting, id ∉ s.suspended
  owned_not_suspended : ∀ id ∈ s.owned, id ∉ s.suspended
  idle_owned : ∀ id ∈ s.idle, id ∈ s.owned

theorem Pool.separated_iff : p.Separated issued ↔ p.fleet.Separated issued [] := by
  constructor
  · intro apart
    constructor <;> intro id <;> simp only [Pool.fleet, Assoc.mem_members, List.append_nil]
    · exact apart.provisioning_issued id
    · exact apart.owned_issued id
    · exact apart.hibernated_issued id
    · exact apart.booting_not_owned id
    · exact apart.booting_not_hibernated id
    · exact apart.owned_not_hibernated id
    · exact apart.idle_owned id
  · rintro ⟨booting, owned, suspended, h₁, h₂, h₃, idle⟩
    simp only [Pool.fleet, Assoc.mem_members, List.append_nil] at booting owned suspended h₁ h₂ h₃ idle
    exact ⟨booting, owned, suspended, h₁, h₂, h₃, idle⟩

namespace Fleet.Separated

theorem create (ev : Event) : (Pool.create ev).fleet.Separated old new := by
  constructor <;> intro id member <;> exact absurd member (Finset.notMem_empty id)

theorem grow (apart : s.Separated old new) : s.Separated (old ++ new) [] where
  __ := apart
  booting_issued id member := by simpa using apart.booting_issued id member
  owned_issued id member := List.mem_append_left _ (apart.owned_issued id member)
  suspended_issued id member := List.mem_append_left _ (apart.suspended_issued id member)

theorem start (apart : s.Separated old []) : s.Separated old new where
  __ := apart
  booting_issued id member :=
    List.mem_append_left _ (by simpa using apart.booting_issued id member)

theorem release (apart : s.Separated old new) (id : String) : (s.release id).Separated old new where
  __ := apart
  owned_issued k member := apart.owned_issued k (Finset.mem_of_mem_erase member)
  booting_not_owned k booting member :=
    apart.booting_not_owned k booting (Finset.mem_of_mem_erase member)
  owned_not_suspended k member := apart.owned_not_suspended k (Finset.mem_of_mem_erase member)
  idle_owned k member :=
    have ⟨different, idle⟩ := Finset.mem_erase.mp member
    Finset.mem_erase.mpr ⟨different, apart.idle_owned k idle⟩

/-- Every move keeps the sets apart when the VMs it brings in are new. -/
theorem step (apart : s.Separated old new) (caused : Caused env c q a s m)
    (issues : (c.step env a).2.flatMap Call.issues = new) (fresh : ∀ id ∈ new, id ∉ old) :
    (s.step m).Separated old new := by
  cases caused with
  | configure | down => exact { apart with }
  | busy => exact { apart with
      idle_owned := fun k member => apart.idle_owned k (Finset.mem_of_mem_erase member) }
  | release => exact apart.release _
  | idle owned =>
    refine { apart with idle_owned := fun k member => ?_ }
    rcases Finset.mem_insert.mp member with rfl | idle
    · exact owned
    · exact apart.idle_owned k idle
  | cancel | expire => exact { apart with
      booting_issued := fun k member => apart.booting_issued k (Finset.mem_of_mem_erase member)
      booting_not_owned := fun k member =>
        apart.booting_not_owned k (Finset.mem_of_mem_erase member)
      booting_not_suspended := fun k member =>
        apart.booting_not_suspended k (Finset.mem_of_mem_erase member) }
  | @issue request vms _ _ issued _ _ =>
    have arrived : ∀ k, k ∈ (s.step (.issue (vms.map (·.id)))).booting →
        k ∈ s.booting ∨ k ∈ new := by
      intro k member
      rw [← issues, issued]
      simpa [Fleet.step] using member
    refine { apart with booting_issued := ?_, booting_not_owned := ?_, booting_not_suspended := ?_ }
      <;> intro k member <;> rcases arrived k member with booting | added
    · exact apart.booting_issued k booting
    · exact List.mem_append_right _ added
    · exact apart.booting_not_owned k booting
    · exact fun owned => fresh k added (apart.owned_issued k owned)
    · exact apart.booting_not_suspended k booting
    · exact fun asleep => fresh k added (apart.suspended_issued k asleep)
  | resume suspended =>
    refine { apart with
      booting_issued := ?_, suspended_issued := ?_, booting_not_owned := ?_
      booting_not_suspended := ?_, owned_not_suspended := ?_ } <;> intro k member
    · rcases Finset.mem_insert.mp member with rfl | booting
      · exact List.mem_append_left _ (apart.suspended_issued _ suspended)
      · exact apart.booting_issued k booting
    · exact apart.suspended_issued k (Finset.mem_of_mem_erase member)
    · rcases Finset.mem_insert.mp member with rfl | booting
      · exact fun owned => apart.owned_not_suspended _ owned suspended
      · exact apart.booting_not_owned k booting
    · intro asleep
      obtain ⟨different, asleep⟩ := Finset.mem_erase.mp asleep
      rcases Finset.mem_insert.mp member with same | booting
      · exact different same
      · exact apart.booting_not_suspended k booting asleep
    · exact fun asleep => apart.owned_not_suspended k member (Finset.mem_of_mem_erase asleep)
  | up booting =>
    -- nodes come up in steps that bring no VM in
    have known : ∀ id ∈ s.booting, id ∈ old := by
      have silent : new = [] := by
        rw [← issues, Controller.step, registerNodesUp, onPool_calls]
        cases c.pools.lookup q <;> rfl
      simpa [silent] using apart.booting_issued
    refine { apart with
      booting_issued := ?_, owned_issued := ?_, booting_not_owned := ?_
      booting_not_suspended := ?_, owned_not_suspended := ?_, idle_owned := ?_ } <;> intro k member
    · exact apart.booting_issued k (Finset.mem_of_mem_erase member)
    · rcases Finset.mem_insert.mp member with rfl | owned
      · exact known _ booting
      · exact apart.owned_issued k owned
    · obtain ⟨different, waiting⟩ := Finset.mem_erase.mp member
      intro owned
      rcases Finset.mem_insert.mp owned with same | owned
      · exact different same
      · exact apart.booting_not_owned k waiting owned
    · exact apart.booting_not_suspended k (Finset.mem_of_mem_erase member)
    · rcases Finset.mem_insert.mp member with rfl | owned
      · exact apart.booting_not_suspended _ booting
      · exact apart.owned_not_suspended k owned
    · exact Finset.mem_insert_of_mem (apart.idle_owned k member)
  | @suspend _ id idle =>
    have owned := apart.idle_owned id idle
    have gone := apart.release id
    refine { gone with
      suspended_issued := ?_, booting_not_suspended := ?_, owned_not_suspended := ?_ }
      <;> intro k member
    · rcases Finset.mem_insert.mp member with rfl | asleep
      · exact apart.owned_issued _ owned
      · exact apart.suspended_issued k asleep
    · intro asleep
      rcases Finset.mem_insert.mp asleep with rfl | asleep
      · exact apart.booting_not_owned _ member owned
      · exact apart.booting_not_suspended k member asleep
    · intro asleep
      rcases Finset.mem_insert.mp asleep with rfl | asleep
      · exact Finset.notMem_erase _ _ member
      · exact gone.owned_not_suspended k member asleep

end Fleet.Separated

theorem Controller.Separated.step {c : Controller} (separated : c.Separated issued)
    (fresh : ∀ id ∈ (c.step env a).2.flatMap Call.issues, id ∉ issued) :
    (c.step env a).1.Separated (issued ++ (c.step env a).2.flatMap Call.issues) := by
  intro q p found
  refine Pool.separated_iff.mpr (Fleet.Separated.grow ?_)
  refine step_invariant (fun ev _ _ _ _ => .create ev) (fun s m apart caused => ?_)
    (fun old before => (Pool.separated_iff.mp (separated q old before)).start) p found
  exact apart.step caused rfl fresh

end Moves

section Calls
variable {c : Controller} {p : Pool} {issued : List String} (env : Env) (site : ReclaimSite)

theorem resumeHibernated_calls (ev : Event) (needed resumed : Nat) (p : Pool) :
    ∀ call ∈ (resumeHibernated env ev needed resumed p).2.2, ∃ ref, call = .resume ref := by
  induction needed generalizing resumed p with
  | zero => simp [resumeHibernated]
  | succ needed ih =>
    unfold resumeHibernated
    split
    · simp
    · exact List.forall_mem_cons.mpr ⟨⟨_, rfl⟩, ih _ _⟩

theorem scaleOut_calls (cooldown : Duration) (ev : Event) (p : Pool) :
    ∀ call ∈ (scaleOut env cooldown ev p).2,
      (∃ ref, call = .resume ref) ∨ ∃ request answer, call = .ensure request answer := by
  unfold scaleOut
  dsimp only
  split
  · simp
  split
  · simp
  have resumed := resumeHibernated_calls env ev
    (p.need ev).toNat 0 (p.startCooldown cooldown env.now)
  split
  · exact fun call member => .inl (resumed call member)
  · refine List.forall_mem_append.mpr ⟨fun call member => .inl (resumed call member), ?_⟩
    unfold provision
    dsimp only
    split <;> exact List.forall_mem_singleton.mpr (.inr ⟨_, _, rfl⟩)

theorem receive_calls (c : Controller) : ∀ call ∈ (c.step env .receive).2,
    (∃ ref, call = .resume ref) ∨ ∃ request answer, call = .ensure request answer := by
  simp only [Controller.step]
  split
  · simp
  · unfold handle
    split
    · exact scaleOut_calls env _ _ _
    all_goals simp

theorem destroyProvisioning_calls (p : Pool) (vmID : String) :
    (destroyProvisioning env site p vmID).2 =
      [.reclaim site p ⟨p.provider, vmID⟩ "deallocate" true] := by
  unfold destroyProvisioning
  dsimp only
  split <;> rfl

theorem destroyProvisioning_keeps (p : Pool) (vmID : String) :
    (destroyProvisioning env site p vmID).1.owned = p.owned ∧
      (destroyProvisioning env site p vmID).1.hibernated = p.hibernated ∧
      ∀ id ≠ vmID, id ∈ (destroyProvisioning env site p vmID).1.provisioning ↔
        id ∈ p.provisioning := by
  unfold destroyProvisioning
  dsimp only
  split
  · exact ⟨rfl, rfl, fun _ _ => .rfl⟩
  · exact ⟨rfl, rfl, fun _ different => AList.mem_erase.trans (and_iff_right different)⟩

/-- Destroying a list of distinct VMs one after the other touches booting VMs only,
exactly when all of them are booting at the start. -/
theorem destroy_all_iff (deliberate : site ≠ .idleNode) (nodup : stale.Nodup)
    (apart : ∀ id ∈ stale, id ∈ p.provisioning → id ∉ p.owned ∧ id ∉ p.hibernated) :
    (∀ call ∈ (run (destroyProvisioning env site) p stale).2, call.OnlyBooting) ↔
      ∀ vmID ∈ stale, vmID ∈ p.provisioning := by
  induction stale generalizing p with
  | nil => simp
  | cons vmID stale ih =>
    obtain ⟨alone, nodup⟩ := List.nodup_cons.mp nodup
    have different : ∀ id ∈ stale, id ≠ vmID := fun id member same => alone (same ▸ member)
    obtain ⟨owned, hibernated, booting⟩ := destroyProvisioning_keeps env site p vmID
    have head : (Call.reclaim site p ⟨p.provider, vmID⟩ "deallocate" true).OnlyBooting ↔
        vmID ∈ p.provisioning := by
      have whole := fun member => And.intro member (apart vmID (by simp) member)
      cases site with
      | provisioningTimeout => exact ⟨And.left, whole⟩
      | queuedJobs => exact ⟨And.left, whole⟩
      | idleNode => exact absurd rfl deliberate
    have tail := ih (p := (destroyProvisioning env site p vmID).1) nodup fun id member present => by
      rw [owned, hibernated]
      exact apart id (by simp [member]) ((booting id (different id member)).mp present)
    simp only [run_cons, destroyProvisioning_calls, List.singleton_append, List.forall_mem_cons,
      head, tail]
    exact and_congr_right fun _ => forall₂_congr fun id member => booting id (different id member)

theorem Pool.Separated.alone (separated : p.Separated issued) :
    ∀ id ∈ p.provisioning, id ∉ p.owned ∧ id ∉ p.hibernated := fun id booting =>
  ⟨separated.booting_not_owned id booting, separated.booting_not_hibernated id booting⟩

theorem reclaimIdleNodes_calls (nodes : Bool) (qname : String) (p : Pool) :
    ∀ call ∈ (reclaimIdleNodes env nodes qname p).2, call.OnlyBooting := by
  unfold reclaimIdleNodes
  dsimp only
  split
  · simp
  · apply run_emits
    intro p name _
    rw [reclaimCandidate_eq]
    unfold reclaimNodeLocked
    dsimp only
    split_ifs <;> simp [Call.OnlyBooting]

theorem timedOut_stamped (late : p.timedOut now vmID = true) : vmID ∈ p.provisionedAt := by
  unfold Pool.timedOut at late
  split at late
  · contradiction
  · exact Assoc.mem_of_lookup (by assumption)

/-- One pool's turn of a tick destroys booting VMs only, exactly when every VM
whose stamp has timed out is still booting. -/
theorem reclaimPool_only_booting_iff (nodes : Bool) (qname : String)
    (separated : p.Separated issued) :
    (∀ call ∈ (reclaimPool env nodes qname p).2, call.OnlyBooting) ↔
      ∀ vmID, p.timedOut env.now vmID = true → vmID ∈ p.provisioning := by
  have harmless := reclaimIdleNodes_calls env nodes qname
    (sweepProvisioningTimeoutLocked env qname p).1
  unfold reclaimPool
  simp only [List.mem_append, or_imp, forall_and, and_iff_left harmless]
  unfold sweepProvisioningTimeoutLocked
  rw [destroy_all_iff env _ (by decide) ((Assoc.nodup_range _ _).filter _)
    fun id _ => separated.alone id]
  simp only [List.mem_filter, Assoc.mem_range, and_imp]
  exact ⟨fun all vmID late => all vmID (timedOut_stamped late) late, fun all vmID _ late => all vmID late⟩

theorem syncQueuedJobs_only_booting (separated : c.Separated issued) (queue : String)
    (jobIDs : List String) : ∀ call ∈ (syncQueuedJobs env c queue jobIDs).2, call.OnlyBooting := by
  rw [syncQueuedJobs, onPool_calls]
  cases found : c.pools.lookup queue with
  | none => simp
  | some p =>
    refine (destroy_all_iff env _ (by decide) ((Assoc.nodup_range _ _).filter _)
      fun id _ => (separated queue p found).alone id).mpr fun vmID member => ?_
    simpa using (List.mem_filter.mp member).1

/-- A tick destroys booting VMs only, exactly when no pool holds a timed-out stamp
of a VM that has left `Provisioning`. -/
theorem reclaimIdle_only_booting_iff (separated : c.Separated issued) :
    (∀ call ∈ (reclaimIdle env c).2, call.OnlyBooting) ↔
      ∀ q p, c.pools.lookup q = some p →
        ∀ vmID, p.timedOut env.now vmID = true → vmID ∈ p.provisioning := by
  have each : ∀ q p, c.pools.lookup q = some p → ((∀ call ∈ (reclaimPool env c.nodes q p).2,
      call.OnlyBooting) ↔ ∀ vmID, p.timedOut env.now vmID = true → vmID ∈ p.provisioning) :=
    fun q p found => reclaimPool_only_booting_iff env c.nodes q (separated q p found)
  constructor
  · intro all q p found
    exact (each q p found).mp fun call member =>
      all call ((reclaimIdle_calls env c).mpr ⟨q, p, found, member⟩)
  · intro booting call member
    obtain ⟨q, p, found, member⟩ := (reclaimIdle_calls env c).mp member
    exact (each q p found).mpr (booting q p found) call member

theorem receive_only_booting (c : Controller) :
    ∀ call ∈ (c.step env .receive).2, call.OnlyBooting := by
  intro call member
  obtain ⟨ref, rfl⟩ | ⟨request, answer, rfl⟩ := receive_calls env c call member <;> trivial

end Calls

section Runs
variable {w : World} {l : Env × Action}

def World.Separated (w : World) : Prop := w.controller.Separated w.issued

/-- At a tick, a VM whose provisioning stamp has timed out is still booting. -/
def World.StampsBooting (w : World) (l : Env × Action) : Prop :=
  l.2 = .reclaimIdle → ∀ q p, w.controller.pools.lookup q = some p →
    ∀ vmID, p.timedOut l.1.now vmID = true → vmID ∈ p.provisioning

theorem World.separated_initial : World.Separated {} := by
  intro q p found
  simp [new] at found

theorem World.Separated.next (separated : w.Separated) (fresh : w.Fresh l) :
    (w.next l).Separated := Controller.Separated.step separated fresh

theorem World.Separated.step_only_booting_iff (separated : w.Separated) :
    (∀ call ∈ (w.step l).2, call.OnlyBooting) ↔ w.StampsBooting l := by
  obtain ⟨env, action⟩ := l
  unfold World.StampsBooting World.step
  cases action with
  | reclaimIdle =>
    simpa only [Controller.step, forall_const] using reclaimIdle_only_booting_iff env separated
  | receive =>
    simpa only [reduceCtorEq, false_implies, iff_true] using
      receive_only_booting env w.controller
  | syncQueuedJobs queue jobIDs =>
    simpa only [Controller.step, reduceCtorEq, false_implies, iff_true] using
      syncQueuedJobs_only_booting env separated queue jobIDs
  | setNodeController | send ev => simp [Controller.step]
  | registerNodesUp queue nodes | registerNodesIdle queue nodes =>
    simp only [reduceCtorEq, false_implies, iff_true]
    simp only [Controller.step, registerNodesUp, registerNodesIdle, onPool_calls]
    cases w.controller.pools.lookup queue <;> simp

/-- Over any run from the empty controller with a provider that returns fresh VMs
only, the destroy requests of the timeout sweep and of the job synchronisation name
booting VMs only, exactly when every tick finds the timed-out stamps on VMs that are
still booting. -/
theorem destroys_only_booting_vms_iff (ls : List (Env × Action))
    (fresh : Along World.next World.Fresh {} ls) :
    (∀ call ∈ (run World.step {} ls).2, call.OnlyBooting) ↔
      Along World.next World.StampsBooting {} ls :=
  (run_emits_iff World.step _ {} ls).trans
    (fresh.congr (I := World.Separated) (fun _ _ separated fresh => separated.next fresh)
      (fun _ _ separated _ => separated.step_only_booting_iff) World.separated_initial)

def demand : Event where
  kind := .capacity
  queue := "cloud"
  provider := "azure"
  shortfall := { nodes := 1 }
  jobs := [{ id := "1.server" }]

/-- One VM is ordered for a blocked job at time 0. -/
def scaleOutRun : List (Env × Action) :=
  [({ now := 0 }, .send demand), ({ now := 0, ensure := fun _ => .ok [⟨"vm-1"⟩] }, .receive)]

/-- A VM that never registers is destroyed as it should be. -/
theorem destroys_only_booting_vms_slow_boot :
    let ls := scaleOutRun ++ [({ now := 10 * minute }, .reclaimIdle)]
    Along World.next World.Fresh {} ls ∧
      ((∀ call ∈ (run World.step {} ls).2, call.OnlyBooting) ↔
        Along World.next World.StampsBooting {} ls) :=
  have fresh : Along World.next World.Fresh {}
      (scaleOutRun ++ [({ now := 10 * minute }, .reclaimIdle)]) := by decide
  ⟨fresh, destroys_only_booting_vms_iff _ fresh⟩

/-- The VM registers after a minute and serves its pool; ten minutes after it was
ordered the sweep destroys it. -/
theorem sweep_destroys_owned_vm :
    let ls := scaleOutRun ++ [({ now := minute }, .registerNodesUp "cloud" ["vm-1"]),
      ({ now := 10 * minute }, .reclaimIdle)]
    (ls.map (·.1.now)).Pairwise (· ≤ ·) ∧ Along World.next World.Fresh {} ls ∧
      ∃ call ∈ (run World.step {} ls).2, ¬ call.OnlyBooting := by
  decide

end Runs
end OpenTorque.Cec
