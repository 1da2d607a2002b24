import OpenTorque.Cec.Ownership

/-! What a tick takes away from a pool. The floor `MinNodes` is compared with `Running`
once before the loop over the idle nodes, and a node whose provider call failed is
forgotten with the rest; both are settled here, the first for every single tick and the
second over whole runs. -/
namespace OpenTorque.Cec
open Transition

section Floor
variable (env : Env) (nodes : Bool)

theorem decrement_iterate (k : Nat) (n : Int) :
    decrement^[k] n = if n ≤ 0 then n else max (n - k) 0 := by
  induction k generalizing n with
  | zero =>
    rw [Function.iterate_zero_apply]
    split <;> omega
  | succ k ih =>
    rw [Function.iterate_succ_apply, ih]
    unfold decrement
    split_ifs <;> omega

theorem reclaimCandidate_running (p : Pool) (name : String) :
    let r := (reclaimCandidate env nodes p name).1
    r.running = (if p.leaves env nodes name then decrement p.running else p.running) ∧
      r.minNodes = p.minNodes := by
  have turn := reclaimCandidate_cases env nodes p name
  dsimp only at turn ⊢
  generalize (reclaimCandidate env nodes p name) = r at turn
  change r.1.fleet.running = _ ∧ r.1.fleet.minNodes = _
  rcases turn with ⟨stays, same | same⟩ | ⟨leaves, -, ⟨-, same⟩ | ⟨-, same⟩⟩ <;> rw [same]
  · exact ⟨by rw [stays]; rfl, rfl⟩
  · exact ⟨by rw [stays]; rfl, rfl⟩
  · exact ⟨by rw [leaves]; rfl, rfl⟩
  · exact ⟨by rw [leaves]; rfl, rfl⟩

theorem reclaim_all_running (candidates : List String) (nodup : candidates.Nodup) (p : Pool) :
    let r := (run (reclaimCandidate env nodes) p candidates).1
    r.running = decrement^[(candidates.filter (p.leaves env nodes)).length] p.running ∧
      r.minNodes = p.minNodes := by
  induction candidates generalizing p with
  | nil => exact ⟨rfl, rfl⟩
  | cons name candidates ih =>
    obtain ⟨apart, nodup⟩ := List.nodup_cons.mp nodup
    obtain ⟨-, -, leaves⟩ := reclaimCandidate_settings env nodes p name
    obtain ⟨running, minNodes⟩ := reclaimCandidate_running env nodes p name
    obtain ⟨later, floor⟩ := ih nodup (reclaimCandidate env nodes p name).1
    have rest : candidates.filter ((reclaimCandidate env nodes p name).1.leaves env nodes) =
        candidates.filter (p.leaves env nodes) :=
      List.filter_congr fun other member => leaves other fun same => apart (same ▸ member)
    rw [run_cons]
    refine ⟨?_, floor.trans minNodes⟩
    rw [later, rest, running, List.filter_cons]
    split
    · rw [List.length_cons, Function.iterate_succ_apply]
    · rfl

def Pool.departing (p : Pool) : List String :=
  p.idleSince.keys.filter fun name => p.idleLong env.now name && p.leaves env nodes name

/-- The tick does not scale the pool in, or takes no more nodes than are above its floor. -/
def Pool.KeepsFloor (p : Pool) : Prop :=
  p.idleTime ≤ 0 ∨ p.running ≤ p.minNodes ∨ p.minNodes ≤ 0 ∨
    (p.departing env nodes).length ≤ p.running - p.minNodes

theorem reclaimPool_running (qname : String) (p : Pool) :
    let r := (reclaimPool env nodes qname p).1
    r.running = (if p.idleTime ≤ 0 ∨ p.running ≤ p.minNodes then p.running
      else decrement^[(p.departing env nodes).length] p.running) ∧ r.minNodes = p.minNodes := by
  obtain ⟨since, time, -, -, leaves, running, minNodes⟩ := sweep_keeps env qname p
  unfold reclaimPool
  dsimp only
  generalize (sweepProvisioningTimeoutLocked env qname p).1 = swept at *
  unfold reclaimIdleNodes
  rw [time, running, minNodes]
  split
  case isTrue => exact ⟨running, minNodes⟩
  case isFalse =>
    have long : swept.idleLong = p.idleLong := by
      funext now name
      simp only [Pool.idleLong, since, time]
    have count := reclaim_all_running env nodes _
      ((Assoc.nodup_range (env.order .idleSince qname) swept.idleSince).filter
        (swept.idleLong env.now)) swept
    have same : ((swept.idleSince.range (env.order .idleSince qname)).filter
        (swept.idleLong env.now)).filter (swept.leaves env nodes) |>.Perm
        (p.departing env nodes) := by
      rw [List.filter_filter, since, leaves, long]
      simp only [Bool.and_comm]
      exact ((env.order .idleSince qname).perm _).filter _
    rw [same.length_eq, running, minNodes] at count
    exact count

/-- A tick keeps every pool that is at or above its floor there, whatever calls fail,
exactly when no pool loses more nodes than it has above the floor. -/
theorem tick_keeps_floor_iff (env : Env) (c : Controller) :
    (∀ q p, c.pools.lookup q = some p → p.minNodes ≤ p.running →
        ∃ after, (reclaimIdle env c).1.pools.lookup q = some after ∧
          after.minNodes ≤ after.running) ↔
      ∀ q p, c.pools.lookup q = some p → p.KeepsFloor env c.nodes := by
  refine forall₃_congr fun q p found => ?_
  obtain ⟨running, minNodes⟩ := reclaimPool_running env c.nodes q p
  rw [reclaimIdle_lookup, found, Option.map_some]
  simp only [Option.some.injEq, exists_eq_left']
  rw [running, minNodes, decrement_iterate]
  unfold Pool.KeepsFloor
  by_cases rests : p.idleTime ≤ 0 ∨ p.running ≤ p.minNodes
  · rw [if_pos rests]
    exact ⟨fun _ => rests.elim .inl (.inr ∘ .inl), fun _ => id⟩
  · have above : p.minNodes ≤ p.running := by omega
    rw [if_neg rests, forall_prop_of_true above]
    constructor
    · intro kept
      split_ifs at kept <;> omega
    · intro keeps
      have few := keeps.resolve_left fun inactive => rests (.inl inactive)
      split_ifs <;> omega

/-- Two VMs above a floor of one node, both registered and idle for a minute. -/
def idlePairRun : List (Env × Action) :=
  [({ now := 0 }, .setNodeController),
    ({ now := 0 }, .send { demand with
      shortfall := { nodes := 2 }, minNodes := 1, idleTime := minute }),
    ({ now := 0, ensure := fun _ => .ok [⟨"vm-1"⟩, ⟨"vm-2"⟩] }, .receive),
    ({ now := minute }, .registerNodesUp "cloud" ["vm-1", "vm-2"]),
    ({ now := minute }, .registerNodesIdle "cloud" ["vm-1", "vm-2"])]

/-- The tick removes both nodes although the pool is one above its floor. -/
theorem tick_breaks_floor :
    let c := (idlePairRun.foldl World.next {}).controller
    ∃ p after, c.pools.lookup "cloud" = some p ∧ p.running = 2 ∧ p.minNodes = 1 ∧
      (reclaimIdle { now := 2 * minute } c).1.pools.lookup "cloud" = some after ∧
      after.running = 0 ∧ after.minNodes = 1 :=
  ⟨_, _, rfl, by decide, by decide, rfl, by decide, by decide⟩

end Floor

section Billing

def Call.returned (env : Env) : Call → List String
  | .ensure _ (.ok vms) => vms.map (·.id)
  | .ensure request (.error _) => (env.strays request).map (·.id)
  | _ => []

def Call.released (env : Env) : Call → List String
  | .reclaim _ _ ref policy destroy =>
    if !failed (env.reclaim ref policy destroy) &&
        (destroy || policy = "deallocate" || policy = "stop")
    then [ref.vmID] else []
  | _ => []

/-- A controller with the VMs it was handed, each under the queue it was ordered for, and
those the provider has released. -/
structure Ledger where
  controller : Controller := new
  returned : List (String × String) := []
  released : List String := []

def Ledger.next (w : Ledger) (l : Env × Action) : Ledger :=
  let stepped := w.controller.step l.1 l.2
  -- only the event at the head of the inbox can order VMs
  let queue := w.controller.events.head?.elim "" (·.queue)
  { controller := stepped.1
    returned := w.returned ++ (stepped.2.flatMap (Call.returned l.1)).map (queue, ·)
    released := w.released ++ stepped.2.flatMap (Call.released l.1) }

/-- The controller keeps the VM of `q` in one of the three sets of its pool. -/
def Controller.Keeps (c : Controller) (q id : String) : Prop :=
  ∃ p, c.pools.lookup q = some p ∧ (id ∈ p.owned ∨ id ∈ p.provisioning ∨ id ∈ p.hibernated)

/-- An error comes without VMs, and a node that leaves for good is released by the
provider. -/
def Controller.LosesNothing (c : Controller) (l : Env × Action) : Prop :=
  match l.2 with
  | .receive => ∀ request, failed (l.1.ensure request) = true → l.1.strays request = []
  | .reclaimIdle => ∀ q p, c.pools.lookup q = some p → p.policy ≠ "hibernate" →
      ∀ name ∈ p.departing l.1 c.nodes,
        failed (l.1.reclaim ⟨p.provider, name⟩ p.policy (p.policy = "destroy")) = false ∧
          p.policy ∈ ["deallocate", "stop", "destroy"]
  | _ => True

variable {c : Controller} {env : Env} {a : Action} {q id : String}

/-- The VM is kept in the fleet, or the provider has released it by the end of the step. -/
def Fleet.Keeps (released : List String) (id : String) (s : Fleet) : Prop :=
  id ∈ released ∨ id ∈ s.owned ∨ id ∈ s.booting ∨ id ∈ s.suspended

theorem Fleet.Keeps.release {s : Fleet} {released : List String} (kept : s.Keeps released id)
    (other : String) : (s.release other).Keeps released id ∨ id = other := by
  by_cases same : id = other
  · exact .inr same
  · rcases kept with gone | owned | kept
    · exact .inl (.inl gone)
    · exact .inl (.inr (.inl (Finset.mem_erase.mpr ⟨same, owned⟩)))
    · exact .inl (.inr (.inr kept))

theorem Fleet.Keeps.step {s : Fleet} {m : Move} (loses : c.LosesNothing (env, a))
    (kept : s.Keeps ((c.step env a).2.flatMap (Call.released env)) id)
    (caused : Caused env c q a s m) :
    (s.step m).Keeps ((c.step env a).2.flatMap (Call.released env)) id := by
  cases caused with
  | configure | down | idle | busy => exact kept
  | resume =>
    simp only [Fleet.Keeps, Fleet.step, Finset.mem_insert, Finset.mem_erase] at kept ⊢
    tauto
  | issue =>
    simp only [Fleet.Keeps, Fleet.step, Finset.mem_union] at kept ⊢
    tauto
  | up =>
    simp only [Fleet.Keeps, Fleet.step, Finset.mem_insert, Finset.mem_erase] at kept ⊢
    tauto
  | @cancel _ _ other pool ref _ target call done | @expire _ _ other pool ref _ _ _ target call done =>
    have freed : other ∈ (Call.reclaim .queuedJobs pool ref "deallocate" true).released env := by
      simp [Call.released, done, target]
    by_cases same : id = other
    · exact .inl (List.mem_flatMap.mpr ⟨_, call, same ▸ freed⟩)
    · simp only [Fleet.Keeps, Fleet.step, Finset.mem_erase] at kept ⊢
      tauto
  | @release p _ other pool found idle long leaves forgets call =>
    rcases kept.release other with kept | rfl
    · exact kept
    · have here : id ∈ p.departing env c.nodes := by
        unfold Pool.idleLong at long
        split at long
        · cases long
        · refine List.mem_filter.mpr ⟨AList.mem_keys.mp (Assoc.mem_of_lookup (by assumption)), ?_⟩
          simp_all [Pool.idleLong]
      obtain ⟨done, policy⟩ := loses q p found forgets id here
      refine .inl (List.mem_flatMap.mpr ⟨_, call, ?_⟩)
      have ends : (p.policy = "destroy" ∨ p.policy = "deallocate") ∨ p.policy = "stop" := by
        simp only [List.mem_cons, List.not_mem_nil, or_false] at policy
        tauto
      simpa [Call.released, done] using ends
  | @suspend _ other idle =>
    rcases kept.release other with kept | rfl
    · simp only [Fleet.Keeps, Fleet.step, Finset.mem_insert] at kept ⊢
      tauto
    · exact .inr (.inr (.inr (Finset.mem_insert_self _ _)))

def Call.HandsNothing : Call → Prop
  | .ensure _ _ => False
  | _ => True

theorem Call.HandsNothing.returned {call : Call} (nothing : call.HandsNothing) :
    call.returned env = [] := by
  cases call with
  | ensure => cases nothing
  | resume | reclaim | drainNode | deregisterNode => rfl

theorem destroy_all_handsNothing (site : ReclaimSite) (p : Pool) (stale : List String) :
    ∀ call ∈ (run (destroyProvisioning env site) p stale).2, call.HandsNothing :=
  run_emits fun p vmID _ => by simp [destroyProvisioning_calls, Call.HandsNothing]

theorem reclaimPool_handsNothing (nodes : Bool) (qname : String) (p : Pool) :
    ∀ call ∈ (reclaimPool env nodes qname p).2, call.HandsNothing := by
  refine List.forall_mem_append.mpr ⟨destroy_all_handsNothing _ p _, ?_⟩
  unfold reclaimIdleNodes
  dsimp only
  split
  · simp
  · apply run_emits
    intro p name _
    rw [reclaimCandidate_eq]
    unfold reclaimNodeLocked
    dsimp only
    split_ifs <;> simp [Call.HandsNothing]

/-- A scale-out binds the VMs it is handed, unless they come with an error. -/
theorem scaleOut_returned (cooldown : Duration) (ev : Event) (p : Pool)
    (whole : ∀ request, failed (env.ensure request) = true → env.strays request = []) :
    ∀ call ∈ (scaleOut env cooldown ev p).2, ∀ id ∈ call.returned env,
      id ∈ (scaleOut env cooldown ev p).1.provisioning := by
  unfold scaleOut
  dsimp only
  split
  · simp
  split
  · simp
  have silent := resumeHibernated_calls env ev
    (p.need ev).toNat 0 (p.startCooldown cooldown env.now)
  generalize resumeHibernated env ev (p.need ev).toNat 0
    (p.startCooldown cooldown env.now) = r at silent ⊢
  have resumed : ∀ call ∈ r.2.2, ∀ id ∈ call.returned env, False := by
    intro call member id handed
    obtain ⟨ref, rfl⟩ := silent call member
    cases handed
  split
  · exact fun call member id handed => (resumed call member id handed).elim
  · intro call member id handed
    rcases List.mem_append.mp member with first | last
    · exact (resumed call first id handed).elim
    · unfold provision at last ⊢
      dsimp only at last ⊢
      generalize ensureRequest r.1 ev _ = request at last ⊢
      cases answer : env.ensure request with
      | error e =>
        simp only [answer, List.mem_singleton] at last
        subst last
        simp [Call.returned, whole request (by rw [answer]; rfl)] at handed
      | ok vms =>
        simp only [answer, List.mem_singleton] at last
        subst last
        have bound : id ∈ (bindVMs env ev vms r.1).fleet.booting := by
          rw [fleet_bindVMs]
          exact Finset.mem_union_right _ (List.mem_toFinset.mpr handed)
        exact Assoc.mem_members.mp bound

/-- What a step hands over is kept in the pool it was ordered for. -/
theorem step_returned (loses : c.LosesNothing (env, a)) :
    ∀ id ∈ (c.step env a).2.flatMap (Call.returned env),
      (c.step env a).1.Keeps (c.events.head?.elim "" (·.queue)) id := by
  intro id listed
  obtain ⟨call, member, handed⟩ := List.mem_flatMap.mp listed
  have silent : call.HandsNothing → (c.step env a).1.Keeps (c.events.head?.elim "" (·.queue)) id := by
    intro nothing
    rw [nothing.returned] at handed
    cases handed
  have onPool : ∀ queue f, (∀ p, ∀ call ∈ (f p).2, call.HandsNothing) →
      call ∈ (c.onPool queue f).2 → call.HandsNothing := by
    intro queue f nothing member
    rw [onPool_calls] at member
    cases found : c.pools.lookup queue with
    | none => simp [found] at member
    | some p => exact nothing p call (by simpa [found] using member)
  cases a with
  | setNodeController | send => cases member
  | registerNodesUp queue nodes => exact silent (onPool queue _ (fun _ _ m => by cases m) member)
  | registerNodesIdle queue nodes => exact silent (onPool queue _ (fun _ _ m => by cases m) member)
  | syncQueuedJobs queue jobIDs =>
    exact silent (onPool queue _ (fun p => destroy_all_handsNothing _ p _) member)
  | reclaimIdle =>
    obtain ⟨q, p, -, member⟩ := (reclaimIdle_calls env c).mp member
    exact silent (reclaimPool_handsNothing _ q p call member)
  | receive =>
    cases inbox : c.events with
    | nil => simp [Controller.step, inbox] at member
    | cons ev rest =>
      simp only [Controller.step, inbox, List.head?_cons, Option.elim_some] at member ⊢
      unfold handle at member ⊢
      split at member
      case h_1 kind =>
        exact ⟨_, AList.lookup_insert _,
          .inr (.inl (scaleOut_returned _ _ _ loses call member id handed))⟩
      all_goals cases member

/-- No billed VM is forgotten: each VM ever handed to the controller is kept in its pool
unless the provider has released it. -/
def Ledger.Complete (w : Ledger) : Prop :=
  ∀ q id, (q, id) ∈ w.returned → id ∈ w.released ∨ w.controller.Keeps q id

theorem Ledger.Complete.next {w : Ledger} {l : Env × Action} (complete : w.Complete)
    (loses : w.controller.LosesNothing l) : (w.next l).Complete := by
  intro q id member
  rcases List.mem_append.mp member with before | now
  · rcases complete q id before with gone | ⟨p, found, kept⟩
    · exact .inl (List.mem_append_left _ gone)
    · obtain ⟨after, still⟩ := step_lookup l.1 l.2 found
      have start : p.fleet.Keeps ((w.controller.step l.1 l.2).2.flatMap (Call.released l.1)) id :=
        .inr (by simpa only [Pool.fleet, Assoc.mem_members] using kept)
      have kept := step_invariant
        (I := Fleet.Keeps ((w.controller.step l.1 l.2).2.flatMap (Call.released l.1)) id)
        (fun _ _ _ _ absent => by rw [found] at absent; cases absent)
        (fun _ _ kept => kept.step loses)
        (fun old present => by rw [found] at present; cases present; exact start) after still
      rcases kept with gone | kept
      · exact .inl (List.mem_append_right _ gone)
      · exact .inr ⟨after, still, by simpa only [Pool.fleet, Assoc.mem_members] using kept⟩
  · obtain ⟨handed, listed, same⟩ := List.mem_map.mp now
    cases same
    exact .inr (step_returned loses _ listed)

/-- Over any run from the empty controller in which errors of the provider come without
VMs and nodes that leave for good are released by it, no VM is forgotten. -/
theorem no_billed_vm_forgotten (ls : List (Env × Action))
    (loses : Along Ledger.next (fun w l => w.controller.LosesNothing l) {} ls) :
    Ledger.Complete (ls.foldl Ledger.next {}) :=
  loses.invariant (fun _ _ complete loses => complete.next loses) fun _ _ member => by cases member

/-- A VM is ordered, registers and is idle for a minute under the default policy. -/
def idleRun : List (Env × Action) :=
  [({ now := 0 }, .setNodeController),
    ({ now := 0 }, .send { demand with idleTime := minute }),
    ({ now := 0, ensure := fun _ => .ok [⟨"vm-1"⟩] }, .receive),
    ({ now := minute }, .registerNodesUp "cloud" ["vm-1"]),
    ({ now := minute }, .registerNodesIdle "cloud" ["vm-1"])]

theorem no_billed_vm_forgotten_released :
    let ls := idleRun ++ [({ now := 2 * minute }, .reclaimIdle)]
    Along Ledger.next (fun w l => w.controller.LosesNothing l) {} ls ∧
      Ledger.Complete (ls.foldl Ledger.next {}) := by
  have loses : Along Ledger.next (fun w l => w.controller.LosesNothing l) {}
      (idleRun ++ [({ now := 2 * minute }, .reclaimIdle)]) := by
    refine ⟨trivial, trivial, fun _ _ => rfl, trivial, trivial, ?_, trivial⟩
    show ∀ q p, _ = some p → _
    decide
  exact ⟨loses, no_billed_vm_forgotten _ loses⟩

/-- The provider refuses to release the VM, and the controller forgets it all the same. -/
theorem failed_reclaim_forgets_vm :
    let ls := idleRun ++ [({ now := 2 * minute, reclaim := fun _ _ _ => .error "busy" },
      .reclaimIdle)]
    ("cloud", "vm-1") ∈ (ls.foldl Ledger.next {}).returned ∧
      ¬ Ledger.Complete (ls.foldl Ledger.next {}) := by
  refine ⟨by decide, fun complete => ?_⟩
  rcases complete "cloud" "vm-1" (by decide) with gone | ⟨p, found, kept⟩
  · revert gone
    decide
  · cases found
    revert kept
    decide

end Billing
end OpenTorque.Cec
