import OpenTorque.Cec.Controller

/-! The life of the VMs of one pool without the maps that record it: the sets of
booting, owned, suspended and idle VMs and the two counters kept beside them. Every
controller step takes each pool along a path of elementary moves, and each move
carries what the controller knows when it makes it. Invariants of the pools are
proved move by move. -/
namespace OpenTorque.Cec
open Transition

structure Fleet where
  minNodes : Int
  maxNodes : Int
  booting : Finset String
  owned : Finset String
  suspended : Finset String
  idle : Finset String
  running : Int
  inflight : Int
  deriving DecidableEq

inductive Move where
  | configure (ev : Event)
  | resume (id : String)
  /-- One answer of the provider to a scale-out. -/
  | issue (ids : List String)
  | down
  | up (id : String)
  | idle (id : String)
  | busy (id : String)
  /-- A booting VM is given up. -/
  | destroy (id : String)
  /-- An idle node is scaled in and forgotten. -/
  | release (id : String)
  /-- An idle node is scaled in and kept for a later resume. -/
  | suspend (id : String)

def Fleet.release (s : Fleet) (id : String) : Fleet :=
  { s with
    owned := s.owned.erase id
    idle := s.idle.erase id
    running := decrement s.running }

def Fleet.step (s : Fleet) : Move → Fleet
  | .configure ev =>
    { s with
      minNodes := if ev.minNodes > 0 then ev.minNodes else s.minNodes
      maxNodes := if ev.maxNodes > 0 then ev.maxNodes else s.maxNodes }
  | .resume id =>
    { s with
      suspended := s.suspended.erase id
      booting := insert id s.booting
      inflight := s.inflight + 1 }
  | .issue ids =>
    { s with booting := s.booting ∪ ids.toFinset, inflight := s.inflight + ids.length }
  | .down => { s with running := decrement s.running }
  | .up id =>
    { s with
      booting := s.booting.erase id
      inflight := decrement s.inflight
      owned := insert id s.owned
      running := s.running + 1 }
  | .idle id => { s with idle := insert id s.idle }
  | .busy id => { s with idle := s.idle.erase id }
  | .destroy id =>
    { s with booting := s.booting.erase id, inflight := decrement s.inflight }
  | .release id => s.release id
  | .suspend id => { s.release id with suspended := insert id s.suspended }

/-- The pool may grow by that many; limits that are not in order allow anything. -/
def Fleet.Room (s : Fleet) (n : Int) : Prop :=
  0 < s.maxNodes → 0 ≤ s.minNodes ∧ s.minNodes ≤ s.maxNodes → s.running + s.inflight ≤ maxInt →
    s.running + s.inflight + n ≤ s.maxNodes

def Pool.fleet (p : Pool) : Fleet where
  minNodes := p.minNodes
  maxNodes := p.maxNodes
  booting := p.provisioning.members
  owned := p.owned.members
  suspended := p.hibernated.members
  idle := p.idleSince.members
  running := p.running
  inflight := p.inflight

/-- The identities a call brings into the controller. -/
def Call.issues : Call → List String
  | .ensure _ (.ok vms) => vms.map (·.id)
  | _ => []

def Pool.recentlyTried (p : Pool) (now : Time) (name : String) : Bool :=
  (p.lastReclaim.lookup name).any fun last => p.drainTimeout > 0 && now - last < p.drainTimeout

/-- The turn of an idle node ends with the node gone from its pool. -/
def Pool.leaves (p : Pool) (env : Env) (nodes : Bool) (name : String) : Bool :=
  !p.recentlyTried env.now name && nodes && !failed (env.drainNode name) &&
    !failed (env.deregisterNode name)

/-- What the controller knows when one of its steps makes a move in the pool of `q`. -/
inductive Caused (env : Env) (c : Controller) (q : String) : Action → Fleet → Move → Prop where
  | configure {ev rest s} (head : c.events = ev :: rest) (here : ev.queue = q) :
      Caused env c q .receive s (.configure ev)
  | resume {s id} (suspended : id ∈ s.suspended) (room : s.Room 1) :
      Caused env c q .receive s (.resume id)
  | issue {request : EnsureRequest} {vms s} (asked : .ensure request (.ok vms) ∈ (c.step env .receive).2)
      (issued : (c.step env .receive).2.flatMap Call.issues = vms.map (·.id))
      (room : (vms.length : Int) ≤ request.count → s.Room vms.length)
      (prior : ∀ id ∈ s.booting, ∃ p, c.pools.lookup q = some p ∧
        (id ∈ p.provisioning ∨ id ∈ p.hibernated)) :
      Caused env c q .receive s (.issue (vms.map (·.id)))
  | down {ev rest s} (head : c.events = ev :: rest) (here : ev.queue = q)
      (kind : ev.kind = .nodeDown)
      (before : s.running = (c.pools.lookup q).elim 0 Pool.running) :
      Caused env c q .receive s .down
  | up {nodes s id} (booting : id ∈ s.booting) :
      Caused env c q (.registerNodesUp q nodes) s (.up id)
  | idle {nodes s id} (owned : id ∈ s.owned) (reported : id ∈ nodes) :
      Caused env c q (.registerNodesIdle q nodes) s (.idle id)
  | busy {a s id} : Caused env c q a s (.busy id)
  | cancel {jobIDs s id pool ref} (booting : id ∈ s.booting) (target : ref.vmID = id)
      (call : .reclaim .queuedJobs pool ref "deallocate" true ∈
        (c.step env (.syncQueuedJobs q jobIDs)).2)
      (done : failed (env.reclaim ref "deallocate" true) = false) :
      Caused env c q (.syncQueuedJobs q jobIDs) s (.destroy id)
  | expire {p s id pool ref} (found : c.pools.lookup q = some p)
      (late : p.timedOut env.now id = true) (kept : id ∈ p.provisioning → id ∈ s.booting)
      (target : ref.vmID = id)
      (call : .reclaim .provisioningTimeout pool ref "deallocate" true ∈
        (c.step env .reclaimIdle).2)
      (done : failed (env.reclaim ref "deallocate" true) = false) :
      Caused env c q .reclaimIdle s (.destroy id)
  | release {p s id pool} (found : c.pools.lookup q = some p) (idle : id ∈ s.idle)
      (long : p.idleLong env.now id = true) (leaves : p.leaves env c.nodes id = true)
      (forgets : p.policy ≠ "hibernate")
      (call : .reclaim .idleNode pool ⟨p.provider, id⟩ p.policy (p.policy = "destroy") ∈
        (c.step env .reclaimIdle).2) :
      Caused env c q .reclaimIdle s (.release id)
  | suspend {s id} (idle : id ∈ s.idle) : Caused env c q .reclaimIdle s (.suspend id)

section Moves
variable {P : Fleet → Move → Prop} {p : Pool} (env : Env)

theorem nodeUp_reaches (n : String) (up : n ∈ p.provisioning → P p.fleet (.up n)) :
    Reaches Fleet.step P p.fleet (p.nodeUp n).fleet := by
  unfold Pool.nodeUp
  split
  case isTrue booting =>
    have moved : Reaches Fleet.step P p.fleet (p.fleet.step (.up n)) := .single _ (up booting)
    simpa [Fleet.step, Pool.fleet] using moved
  case isFalse => exact .refl

theorem nodesUp_reaches (up : ∀ s n, n ∈ s.booting → P s (.up n)) (nodes : List String) :
    Reaches Fleet.step P p.fleet (nodes.foldl Pool.nodeUp p).fleet := by
  induction nodes generalizing p with
  | nil => exact .refl
  | cons n nodes ih =>
    exact (nodeUp_reaches n fun booting => up p.fleet n (Assoc.mem_members.mpr booting)).trans ih

theorem fleet_clearIdle (p : Pool) (name : String) :
    (p.clearIdle name).fleet = p.fleet.step (.busy name) := by
  simp [Pool.fleet, Pool.clearIdle, Fleet.step]

/-- Marking leaves the owned VMs alone, so a name taken from `Owned` stays there. -/
theorem markIdle_owned (now : Time) (idleNodes : List String) (p : Pool) (name : String) :
    (p.markIdle now idleNodes name).owned = p.owned := by
  unfold Pool.markIdle
  split
  · split <;> rfl
  · rfl

theorem markIdle_reaches (now : Time) (idleNodes names : List String)
    (idle : ∀ s n, n ∈ s.owned → n ∈ idleNodes → P s (.idle n)) (busy : ∀ s n, P s (.busy n))
    (owned : ∀ name ∈ names, name ∈ p.owned) :
    Reaches Fleet.step P p.fleet (names.foldl (Pool.markIdle now idleNodes) p).fleet := by
  induction names generalizing p with
  | nil => exact .refl
  | cons name names ih =>
    have first : Reaches Fleet.step P p.fleet (p.markIdle now idleNodes name).fleet := by
      unfold Pool.markIdle
      split
      case isTrue reported =>
        split
        · exact .refl
        · have here : name ∈ p.fleet.owned := Assoc.mem_members.mpr (owned name (by simp))
          have moved : Reaches Fleet.step P p.fleet (p.fleet.step (.idle name)) :=
            .single _ (idle _ name here reported)
          simpa [Fleet.step, Pool.fleet] using moved
      case isFalse =>
        rw [fleet_clearIdle]
        exact .single _ (busy _ _)
    refine first.trans (ih fun other member => ?_)
    rw [markIdle_owned]
    exact owned other (by simp [member])

theorem oldestHibernated_mem (order : RangeOrder) (some : p.hibernated.keys ≠ []) :
    p.oldestHibernated order ∈ p.hibernated := by
  unfold Pool.oldestHibernated
  have visited : p.hibernated.range order ≠ [] := by
    intro empty
    have none := (order.perm p.hibernated.keys).length_eq
    rw [show order.visit p.hibernated.keys = [] from empty] at none
    exact some (List.length_eq_zero_iff.mp none.symm)
  -- after the first key the choice is always one of the visited keys
  have chosen : ∀ (keys : List String) (best : String × Time), best.1 ∈ p.hibernated →
      (∀ k ∈ keys, k ∈ p.hibernated) →
      (keys.foldl (fun best vmID =>
        let t := (p.hibernated.lookup vmID).getD Time.zero
        if best.1 = "" ∨ t < best.2 then (vmID, t) else best) best).1 ∈ p.hibernated := by
    intro keys
    induction keys with
    | nil => exact fun _ member _ => member
    | cons k keys ih =>
      intro best member present
      apply ih
      · dsimp only
        split
        · exact present k (by simp)
        · exact member
      · exact fun other later => present other (by simp [later])
  cases keys : p.hibernated.range order with
  | nil => exact absurd keys visited
  | cons k keys' =>
    have present : ∀ other ∈ k :: keys', other ∈ p.hibernated := by
      intro other member
      exact (Assoc.mem_range order _).mp (keys ▸ member)
    simp only [List.foldl_cons, true_or, if_true]
    exact chosen keys' _ (present k (by simp)) fun other later => present other (by simp [later])

theorem fleet_resume (p : Pool) (id jobID : String) (now : Time) :
    (p.resume id jobID now).fleet = p.fleet.step (.resume id) := by
  simp [Pool.fleet, Pool.resume, Pool.bind, Fleet.step]

/-- The resume loop fills room that was there before it, and leaves the rest of it. -/
theorem resumeHibernated_reaches (ev : Event) (needed resumed : Nat)
    (resume : ∀ s id, id ∈ s.suspended → s.Room 1 → P s (.resume id))
    (room : p.fleet.Room needed) :
    let r := resumeHibernated env ev needed resumed p
    Reaches Fleet.step P p.fleet r.1.fleet ∧ r.1.fleet.Room (needed + resumed - r.2.1) := by
  induction needed generalizing resumed p with
  | zero => exact ⟨.refl, by simpa [resumeHibernated] using room⟩
  | succ needed ih =>
    unfold resumeHibernated
    split
    case isTrue => exact ⟨.refl, by simpa using room⟩
    case isFalse some =>
      have suspended := oldestHibernated_mem (env.order .hibernated p.queue) some
      generalize p.oldestHibernated (env.order .hibernated p.queue) = id at suspended ⊢
      have left : (p.resume id (ev.jobAt resumed) env.now).fleet.Room needed := by
        rw [fleet_resume]
        intro limited ordered counted
        simp only [Fleet.step] at counted ⊢
        have := room limited ordered (by omega)
        omega
      obtain ⟨path, rest⟩ := ih (resumed + 1) left
      have moved : P p.fleet (.resume id) := by
        refine resume _ id (Assoc.mem_members.mpr suspended) fun limited ordered counted => ?_
        have := room limited ordered counted
        omega
      refine ⟨.trans (fleet_resume .. ▸ .single _ moved) path, fun limited ordered counted => ?_⟩
      dsimp only at limited ordered counted ⊢
      have := rest limited ordered counted
      omega

theorem resumeHibernated_booting (ev : Event) (needed resumed : Nat) (p : Pool) :
    ∀ id ∈ (resumeHibernated env ev needed resumed p).1.provisioning,
      id ∈ p.provisioning ∨ id ∈ p.hibernated := by
  induction needed generalizing resumed p with
  | zero => exact fun _ => .inl
  | succ needed ih =>
    unfold resumeHibernated
    split
    case isTrue => exact fun _ => .inl
    case isFalse some =>
      intro id member
      have suspended := oldestHibernated_mem (env.order .hibernated p.queue) some
      rcases ih _ _ id member with booting | asleep
      · rcases (AList.mem_insert _).mp booting with rfl | booting
        · exact .inr suspended
        · exact .inl booting
      · exact .inr (AList.mem_erase.mp asleep).2

theorem resumeHibernated_issues (ev : Event) (needed resumed : Nat) (p : Pool) :
    (resumeHibernated env ev needed resumed p).2.2.flatMap Call.issues = [] := by
  induction needed generalizing resumed p with
  | zero => rfl
  | succ needed ih =>
    unfold resumeHibernated
    split
    · rfl
    · simpa only [List.flatMap_cons, Call.issues, List.nil_append] using ih _ _

theorem fleet_bindVMs (ev : Event) (vms : List VM) (p : Pool) :
    (bindVMs env ev vms p).fleet =
      { p.fleet with booting := p.fleet.booting ∪ (vms.map (·.id)).toFinset } := by
  have all : ∀ (pairs : List (VM × Nat)) (p : Pool),
      (pairs.foldl (fun p vm => p.bind vm.1.id (ev.jobAt vm.2) (env.boundAt vm.2)) p).fleet =
        { p.fleet with
          booting := p.fleet.booting ∪ (pairs.map (·.1.id)).toFinset } := by
    intro pairs
    induction pairs with
    | nil => intro p; simp
    | cons pair pairs ih =>
      intro p
      rw [List.foldl_cons, ih]
      simp [Pool.fleet, Pool.bind]
  have named : vms.zipIdx.map (·.1.id) = vms.map (·.id) :=
    List.map_map.symm.trans (congrArg (List.map VM.id) (List.zipIdx_map_fst ..))
  rw [bindVMs, all, named]

theorem desiredSize_bounds (ev : Event) (p : Pool) (limited : 0 < p.maxNodes)
    (ordered : p.minNodes ≤ p.maxNodes) :
    p.minNodes ≤ p.desiredSize ev ∧ p.desiredSize ev ≤ p.maxNodes := by
  unfold Pool.desiredSize
  dsimp only
  split_ifs <;> omega

/-- The difference may wrap to something smaller, but not to something larger. -/
theorem need_le (ev : Event) (p : Pool) (limited : 0 < p.maxNodes)
    (ordered : 0 ≤ p.minNodes ∧ p.minNodes ≤ p.maxNodes) (counted : p.running + p.inflight ≤ maxInt) :
    p.running + p.inflight + p.need ev ≤ p.maxNodes := by
  obtain ⟨low, high⟩ := desiredSize_bounds ev p limited ordered.2
  have wrapped : p.need ev ≤ p.desiredSize ev - (p.running + p.inflight) :=
    wrap64_le (by rw [minInt]; rw [maxInt] at counted; omega)
  omega

/-- A scale-out resumes suspended VMs while there is room, then asks the provider for
the rest; an answer no longer than the request fits. -/
theorem scaleOut_reaches (cooldown : Duration) (ev : Event)
    (resume : ∀ s id, id ∈ s.suspended → s.Room 1 → P s (.resume id))
    (issue : ∀ s (request : EnsureRequest) vms, .ensure request (.ok vms) ∈ (scaleOut env cooldown ev p).2 →
      (scaleOut env cooldown ev p).2.flatMap Call.issues = vms.map (·.id) →
      ((vms.length : Int) ≤ request.count → s.Room vms.length) →
      (∀ id ∈ s.booting, id ∈ p.provisioning ∨ id ∈ p.hibernated) →
      P s (.issue (vms.map (·.id)))) :
    Reaches Fleet.step P p.fleet (scaleOut env cooldown ev p).1.fleet := by
  unfold scaleOut at issue ⊢
  dsimp only at issue ⊢
  split
  case isTrue => exact .refl
  case isFalse ready =>
    rw [if_neg ready] at issue
    split
    case isTrue => exact .refl
    case isFalse short =>
      rw [if_neg short] at issue
      have same : (p.startCooldown cooldown env.now).fleet = p.fleet := rfl
      have room : (p.startCooldown cooldown env.now).fleet.Room
          (p.need ev).toNat := by
        rw [same]
        intro limited ordered counted
        have := need_le ev p limited ordered counted
        simp only [Pool.fleet] at this ⊢
        omega
      rw [← same]
      obtain ⟨path, left⟩ := resumeHibernated_reaches env ev _ 0 resume room
      have prior := resumeHibernated_booting env ev
        (p.need ev).toNat 0 (p.startCooldown cooldown env.now)
      have silent := resumeHibernated_issues env ev
        (p.need ev).toNat 0 (p.startCooldown cooldown env.now)
      generalize resumeHibernated env ev
        (p.need ev).toNat 0
        (p.startCooldown cooldown env.now) = r at path left prior silent issue ⊢
      split
      case isTrue => exact path
      case isFalse more =>
        rw [if_neg more] at issue
        refine path.trans ?_
        unfold provision at issue ⊢
        dsimp only at issue ⊢
        generalize ask : ensureRequest r.1 ev
          (p.need ev - r.2.1) = request at issue ⊢
        cases answer : env.ensure request with
        | error e => exact .refl
        | ok vms =>
          simp only [answer, List.flatMap_append, silent, List.nil_append, List.flatMap_cons,
            Call.issues, List.flatMap_nil, List.append_nil] at issue
          have fits : vms.length ≤ request.count → r.1.fleet.Room vms.length := by
            intro few limited ordered counted
            have := left limited ordered counted
            have count : request.count = p.need ev - r.2.1 := by
              rw [← ask]; rfl
            omega
          have moved := issue r.1.fleet request vms (by simp) rfl fits
            fun id member => prior id (Assoc.mem_members.mp member)
          have bound := fleet_bindVMs env ev vms r.1
          have reached : Fleet.step r.1.fleet (.issue (vms.map (·.id))) =
              ({ bindVMs env ev vms r.1 with
                inflight := (bindVMs env ev vms r.1).inflight + vms.length } : Pool).fleet := by
            have parts := bound
            simp only [Pool.fleet, Fleet.mk.injEq] at parts
            simp [Fleet.step, Pool.fleet, parts]
          exact reached ▸ .single _ moved

/-- Destroying distinct VMs one after the other: a VM that was booting before the
loop still is when its turn comes. -/
theorem destroy_all_reaches (site : ReclaimSite) (stale : List String) (nodup : stale.Nodup)
    (destroy : ∀ s, ∀ id ∈ stale, (id ∈ p.provisioning → id ∈ s.booting) →
      ∀ pool ref, ref.vmID = id → failed (env.reclaim ref "deallocate" true) = false →
      .reclaim site pool ref "deallocate" true ∈ (run (destroyProvisioning env site) p stale).2 →
      P s (.destroy id)) :
    Reaches Fleet.step P p.fleet (run (destroyProvisioning env site) p stale).1.fleet := by
  induction stale generalizing p with
  | nil => exact .refl
  | cons vmID stale ih =>
    obtain ⟨apart, nodup⟩ := List.nodup_cons.mp nodup
    rw [run_cons] at destroy ⊢
    have asked : Call.reclaim site p ⟨p.provider, vmID⟩ "deallocate" true ∈
        (destroyProvisioning env site p vmID).2 := by
      unfold destroyProvisioning
      dsimp only
      split <;> simp
    have first : Reaches Fleet.step P p.fleet (destroyProvisioning env site p vmID).1.fleet := by
      have moved := destroy p.fleet vmID (by simp) Assoc.mem_members.mpr p ⟨p.provider, vmID⟩ rfl
      unfold destroyProvisioning at asked moved ⊢
      dsimp only at asked moved ⊢
      split
      case isTrue => exact .refl
      case isFalse done =>
        rw [if_neg done] at asked moved
        have reached : Reaches Fleet.step P p.fleet (p.fleet.step (.destroy vmID)) :=
          .single _ (moved (by simpa using done) (List.mem_append_left _ asked))
        simpa [Fleet.step, Pool.fleet] using reached
    have kept : ∀ id ≠ vmID, id ∈ p.provisioning →
        id ∈ (destroyProvisioning env site p vmID).1.provisioning := by
      intro id different booting
      unfold destroyProvisioning
      dsimp only
      split
      · exact booting
      · exact AList.mem_erase.mpr ⟨different, booting⟩
    refine first.trans (ih nodup fun s id member booting pool ref target done call => ?_)
    refine destroy s id (by simp [member]) (fun before => ?_) pool ref target done
      (List.mem_append_right _ call)
    exact booting (kept id (fun same => apart (same ▸ member)) before)

theorem reclaimCandidate_eq (nodes : Bool) (p : Pool) (name : String) :
    reclaimCandidate env nodes p name =
      if p.recentlyTried env.now name then (p, []) else reclaimNodeLocked env nodes p name := by
  unfold reclaimCandidate Pool.recentlyTried
  cases p.lastReclaim.lookup name with
  | none => rfl
  | some last => simp

theorem reclaimCandidate_settings (nodes : Bool) (p : Pool) (name : String) :
    let r := (reclaimCandidate env nodes p name).1
    r.provider = p.provider ∧ r.policy = p.policy ∧
      ∀ other ≠ name, r.leaves env nodes other = p.leaves env nodes other := by
  have kept : ∀ other ≠ name, (p.attempt name env.now).leaves env nodes other =
      p.leaves env nodes other := by
    intro other different
    have tried : (p.attempt name env.now).recentlyTried env.now other =
        p.recentlyTried env.now other := by
      unfold Pool.recentlyTried Pool.attempt
      rw [AList.lookup_insert_ne different]
    rw [Pool.leaves, tried, Pool.leaves]
  have gone : ∀ other ≠ name, ((p.attempt name env.now).forget name).leaves env nodes other =
      p.leaves env nodes other := by
    intro other different
    have tried : ((p.attempt name env.now).forget name).recentlyTried env.now other =
        p.recentlyTried env.now other := by
      unfold Pool.recentlyTried Pool.forget Pool.attempt
      rw [AList.lookup_erase_ne different, AList.lookup_insert_ne different]
    rw [Pool.leaves, tried, Pool.leaves]
  rw [reclaimCandidate_eq]
  unfold reclaimNodeLocked
  dsimp only
  split_ifs
  · exact ⟨rfl, rfl, fun _ _ => rfl⟩
  · exact ⟨rfl, rfl, kept⟩
  · exact ⟨rfl, rfl, kept⟩
  · exact ⟨rfl, rfl, kept⟩
  · exact ⟨rfl, rfl, gone⟩
  · exact ⟨rfl, rfl, gone⟩

/-- What one turn of the scale-in loop does: it lets the node go, or leaves the lifecycle
of the pool alone but for the idle mark. -/
theorem reclaimCandidate_cases (nodes : Bool) (p : Pool) (name : String) :
    let r := reclaimCandidate env nodes p name
    (p.leaves env nodes name = false ∧
        (r.1.fleet = p.fleet ∨ r.1.fleet = p.fleet.step (.busy name))) ∨
      (p.leaves env nodes name = true ∧
        (∃ pool, .reclaim .idleNode pool ⟨p.provider, name⟩ p.policy (p.policy = "destroy") ∈ r.2) ∧
        ((p.policy = "hibernate" ∧ r.1.fleet = p.fleet.step (.suspend name)) ∨
          (p.policy ≠ "hibernate" ∧ r.1.fleet = p.fleet.step (.release name)))) := by
  have policy : (p.attempt name env.now).policy = p.policy := rfl
  have forgotten : ((p.attempt name env.now).forget name).fleet = p.fleet.release name := by
    simp [Pool.fleet, Pool.forget, Pool.attempt, Fleet.release]
  rw [reclaimCandidate_eq]
  unfold reclaimNodeLocked
  dsimp only
  split_ifs with tried absent undrained kept suspends
  · exact .inl ⟨by simp [Pool.leaves, tried], .inl rfl⟩
  · exact .inl ⟨by simp_all [Pool.leaves], .inr (fleet_clearIdle (p.attempt name env.now) name)⟩
  · exact .inl ⟨by simp [Pool.leaves, undrained], .inl rfl⟩
  · exact .inl ⟨by simp [Pool.leaves, kept], .inl rfl⟩
  all_goals
    have leaves : p.leaves env nodes name = true := by simp_all [Pool.leaves]
  · have suspended : (((p.attempt name env.now).forget name).hibernate name env.now).fleet =
        { p.fleet.release name with suspended := insert name p.fleet.suspended } := by
      rw [← forgotten]
      simp [Pool.fleet, Pool.hibernate, Pool.forget, Pool.attempt]
    exact .inr ⟨leaves, ⟨_, .tail _ (.tail _ (.head _))⟩, .inl ⟨suspends.1, suspended⟩⟩
  · have lasting : p.policy ≠ "hibernate" := by
      intro hibernate
      rw [policy, hibernate] at suspends
      exact suspends ⟨rfl, by decide⟩
    exact .inr ⟨leaves, ⟨_, .tail _ (.tail _ (.head _))⟩, .inr ⟨lasting, forgotten⟩⟩

/-- The scale-in loop over distinct candidates, each idle until its turn comes. -/
theorem reclaim_all_reaches (nodes : Bool) (candidates : List String) (nodup : candidates.Nodup)
    (idle : ∀ name ∈ candidates, name ∈ p.idleSince) (busy : ∀ s n, P s (.busy n))
    (suspend : ∀ s, ∀ name ∈ candidates, name ∈ s.idle → P s (.suspend name))
    (release : ∀ s, ∀ name ∈ candidates, name ∈ s.idle → p.policy ≠ "hibernate" →
      p.leaves env nodes name = true →
      ∀ pool, .reclaim .idleNode pool ⟨p.provider, name⟩ p.policy (p.policy = "destroy") ∈
        (run (reclaimCandidate env nodes) p candidates).2 → P s (.release name)) :
    Reaches Fleet.step P p.fleet (run (reclaimCandidate env nodes) p candidates).1.fleet := by
  induction candidates generalizing p with
  | nil => exact .refl
  | cons name candidates ih =>
    obtain ⟨apart, nodup⟩ := List.nodup_cons.mp nodup
    have different : ∀ other ∈ candidates, other ≠ name :=
      fun other member same => apart (same ▸ member)
    obtain ⟨provider, policy, leaves⟩ := reclaimCandidate_settings env nodes p name
    have here : name ∈ p.fleet.idle := Assoc.mem_members.mpr (idle name (by simp))
    rw [run_cons] at release ⊢
    have turn := reclaimCandidate_cases env nodes p name
    dsimp only at turn
    generalize reclaimCandidate env nodes p name = r at turn provider policy leaves release ⊢
    have first : Reaches Fleet.step P p.fleet r.1.fleet := by
      rcases turn with ⟨-, same | same⟩ | ⟨gone, ⟨pool, call⟩, ⟨-, same⟩ | ⟨lasting, same⟩⟩
      · exact same ▸ .refl
      · exact same ▸ .single _ (busy _ _)
      · exact same ▸ .single _ (suspend _ _ (by simp) here)
      · exact same ▸ .single _ (release _ _ (by simp) here lasting gone pool
          (List.mem_append_left _ call))
    have still : ∀ other ∈ candidates, other ∈ r.1.idleSince := by
      intro other member
      have before : other ∈ p.fleet.idle := Assoc.mem_members.mpr (idle other (by simp [member]))
      refine Assoc.mem_members.mp (show other ∈ r.1.fleet.idle from ?_)
      rcases turn with ⟨-, same | same⟩ | ⟨-, -, ⟨-, same⟩ | ⟨-, same⟩⟩ <;> rw [same]
      · exact before
      all_goals exact Finset.mem_erase.mpr ⟨different other member, before⟩
    refine first.trans (ih nodup still (fun s other member => suspend s other (by simp [member]))
      fun s other member idle lasting gone pool call => ?_)
    rw [policy] at lasting
    rw [leaves other (different other member)] at gone
    rw [provider, policy] at call
    exact release s other (by simp [member]) idle lasting gone pool
      (List.mem_append_right _ call)

end Moves

section Controllers
variable {c : Controller}

theorem onPool_lookup (queue : String) (f : Pool → Pool × List Call) :
    (c.onPool queue f).1.pools.lookup queue = (c.pools.lookup queue).map fun p => (f p).1 := by
  unfold Controller.onPool
  cases found : c.pools.lookup queue with
  | none => simpa using found
  | some p => simp [Controller.put]

theorem onPool_lookup_ne (different : q ≠ queue) (f : Pool → Pool × List Call) :
    (c.onPool queue f).1.pools.lookup q = c.pools.lookup q := by
  unfold Controller.onPool
  split
  · rfl
  · exact AList.lookup_insert_ne different

theorem onPool_calls (queue : String) (f : Pool → Pool × List Call) :
    (c.onPool queue f).2 = (c.pools.lookup queue).elim [] fun p => (f p).2 := by
  unfold Controller.onPool
  cases c.pools.lookup queue <;> rfl

/-- In a loop over distinct pools each pool has its turn from its state before the loop. -/
theorem onPools_lookup (f : String → Pool → Pool × List Call) (nodup : queues.Nodup) :
    (run (fun c queue => c.onPool queue (f queue)) c queues).1.pools.lookup q =
      if q ∈ queues then (c.pools.lookup q).map fun p => (f q p).1 else c.pools.lookup q := by
  induction queues generalizing c with
  | nil => simp
  | cons queue queues ih =>
    obtain ⟨apart, nodup⟩ := List.nodup_cons.mp nodup
    rw [run_cons, ih nodup]
    by_cases same : q = queue
    · subst same
      simp [apart, onPool_lookup]
    · simp [same, onPool_lookup_ne same]

theorem onPools_calls (f : String → Pool → Pool × List Call) (nodup : queues.Nodup) :
    call ∈ (run (fun c queue => c.onPool queue (f queue)) c queues).2 ↔
      ∃ queue ∈ queues, ∃ p, c.pools.lookup queue = some p ∧ call ∈ (f queue p).2 := by
  induction queues generalizing c with
  | nil => simp
  | cons queue queues ih =>
    obtain ⟨apart, nodup⟩ := List.nodup_cons.mp nodup
    have here : call ∈ (c.onPool queue (f queue)).2 ↔
        ∃ p, c.pools.lookup queue = some p ∧ call ∈ (f queue p).2 := by
      rw [onPool_calls]
      cases c.pools.lookup queue <;> simp
    have there : ∀ other ∈ queues, (c.onPool queue (f queue)).1.pools.lookup other =
        c.pools.lookup other := fun other member =>
      onPool_lookup_ne (fun same : other = queue => apart (same ▸ member)) _
    rw [run_cons, List.mem_append, here, ih nodup, List.exists_mem_cons_iff]
    refine or_congr_right (exists_congr fun other => and_congr_right fun member => ?_)
    rw [there other member]

theorem reclaimIdle_lookup (env : Env) (c : Controller) (q : String) :
    (reclaimIdle env c).1.pools.lookup q =
      (c.pools.lookup q).map fun p => (reclaimPool env c.nodes q p).1 := by
  rw [reclaimIdle, onPools_lookup _ (Assoc.nodup_range _ _)]
  split
  · rfl
  · rename_i unseen
    rw [AList.lookup_eq_none.mpr (by simpa using unseen)]
    rfl

theorem reclaimIdle_calls (env : Env) (c : Controller) :
    call ∈ (reclaimIdle env c).2 ↔
      ∃ q p, c.pools.lookup q = some p ∧ call ∈ (reclaimPool env c.nodes q p).2 := by
  rw [reclaimIdle, onPools_calls _ (Assoc.nodup_range _ _)]
  constructor
  · rintro ⟨q, -, p, found, member⟩
    exact ⟨q, p, found, member⟩
  · rintro ⟨q, p, found, member⟩
    exact ⟨q, (Assoc.mem_range _ _).mpr (Assoc.mem_of_lookup found), p, found, member⟩

theorem sweep_keeps (env : Env) (q : String) (p : Pool) :
    let swept := (sweepProvisioningTimeoutLocked env q p).1
    swept.idleSince = p.idleSince ∧ swept.idleTime = p.idleTime ∧ swept.provider = p.provider ∧
      swept.policy = p.policy ∧ swept.leaves = p.leaves ∧ swept.running = p.running ∧
      swept.minNodes = p.minNodes := by
  unfold sweepProvisioningTimeoutLocked
  refine run_invariant (I := fun r : Pool => r.idleSince = p.idleSince ∧ r.idleTime = p.idleTime ∧
    r.provider = p.provider ∧ r.policy = p.policy ∧ r.leaves = p.leaves ∧ r.running = p.running ∧
    r.minNodes = p.minNodes) (fun r vmID _ kept => ?_) ⟨rfl, rfl, rfl, rfl, rfl, rfl, rfl⟩
  unfold destroyProvisioning
  dsimp only
  split <;> exact kept

variable {env : Env} {q : String} {a : Action}

/-- One pool's turn of a tick: the sweep, then the scale-in. -/
theorem reclaimPool_reaches (found : c.pools.lookup q = some p) :
    Reaches Fleet.step (Caused env c q .reclaimIdle) p.fleet
      (reclaimPool env c.nodes q p).1.fleet := by
  have made : ∀ call ∈ (reclaimPool env c.nodes q p).2, call ∈ (c.step env .reclaimIdle).2 :=
    fun call member => (reclaimIdle_calls env c).mpr ⟨q, p, found, member⟩
  obtain ⟨since, time, provider, policy, leaves, -, -⟩ := sweep_keeps env q p
  unfold reclaimPool at made ⊢
  dsimp only at made ⊢
  have swept : Reaches Fleet.step (Caused env c q .reclaimIdle) p.fleet
      (sweepProvisioningTimeoutLocked env q p).1.fleet := by
    refine destroy_all_reaches env _ _ ((Assoc.nodup_range _ _).filter _)
      fun s id member kept pool ref target done call => ?_
    exact .expire found (List.mem_filter.mp member).2 kept target
      (made _ (List.mem_append_left _ call)) done
  refine swept.trans ?_
  generalize sweepProvisioningTimeoutLocked env q p = r at since time provider policy leaves made ⊢
  unfold reclaimIdleNodes at made ⊢
  split
  case isTrue => exact .refl
  case isFalse scales =>
    rw [if_neg scales] at made
    have long : ∀ name ∈ (r.1.idleSince.range (env.order .idleSince q)).filter
        (r.1.idleLong env.now), p.idleLong env.now name = true := by
      intro name member
      have := (List.mem_filter.mp member).2
      rwa [Pool.idleLong, since, time] at this
    refine reclaim_all_reaches env c.nodes _ ((Assoc.nodup_range _ _).filter _)
      (fun name member => by simpa using (List.mem_filter.mp member).1) (fun _ _ => .busy)
      (fun s name _ idle => .suspend idle)
      fun s name member idle forgets gone pool call => ?_
    have made := made _ (List.mem_append_right _ call)
    rw [policy] at forgets
    rw [provider, policy] at made
    exact .release found idle (long name member) (leaves ▸ gone) forgets made

theorem put_lookup (queue : String) (p : Pool) :
    (c.put queue p).pools.lookup q = if q = queue then some p else c.pools.lookup q :=
  Assoc.lookup_insert_ite ..

/-- An event changes the pool of its queue only, which it creates or configures first. -/
theorem receive_reaches (env : Env) (inbox : c.events = ev :: rest) :
    ∃ p, (∀ q, (c.step env .receive).1.pools.lookup q =
        if q = ev.queue then some p else c.pools.lookup q) ∧
      Reaches Fleet.step (Caused env c ev.queue .receive) (ensurePool c.pools ev).fleet p.fleet := by
  have handled : c.step env .receive = handle env { c with events := rest } ev := by
    simp only [Controller.step, inbox]
  have issued : ∀ calls, (handle env { c with events := rest } ev).2 = calls →
      (c.step env .receive).2 = calls := fun _ same => handled ▸ same
  rw [handled]
  unfold handle at issued ⊢
  split
  case h_1 =>
    rename_i kind
    rw [kind] at issued
    refine ⟨_, fun _ => put_lookup .., scaleOut_reaches env _ _ (fun _ _ => .resume)
      fun s request vms asked same room prior => .issue ?_ ?_ room fun id booting => ?_⟩
    · exact issued _ rfl ▸ asked
    · exact issued _ rfl ▸ same
    · have known := prior id booting
      unfold ensurePool at known
      cases found : c.pools.lookup ev.queue with
      | none => simp [found, Pool.configure, Pool.create] at known
      | some old => exact ⟨old, rfl, by simpa [found, Pool.configure] using known⟩
  case h_4 =>
    rename_i kind
    have before : (ensurePool c.pools ev).fleet.running =
        (c.pools.lookup ev.queue).elim 0 Pool.running := by
      unfold ensurePool
      cases c.pools.lookup ev.queue <;> rfl
    have lowered : Reaches Fleet.step (Caused env c ev.queue .receive) (ensurePool c.pools ev).fleet
        ((ensurePool c.pools ev).fleet.step .down) := .single _ (.down inbox rfl kind before)
    exact ⟨_, fun _ => put_lookup .., lowered⟩
  all_goals exact ⟨_, fun _ => put_lookup .., .refl⟩

/-- No step removes a pool. -/
theorem step_lookup (env : Env) (a : Action) (found : c.pools.lookup q = some p) :
    ∃ after, (c.step env a).1.pools.lookup q = some after := by
  have onPool : ∀ queue f, ∃ after, (c.onPool queue f).1.pools.lookup q = some after := by
    intro queue f
    by_cases here : q = queue
    · exact ⟨_, by rw [here, onPool_lookup, ← here, found]; rfl⟩
    · exact ⟨p, by rw [onPool_lookup_ne here, found]⟩
  cases a with
  | setNodeController => exact ⟨p, found⟩
  | send ev =>
    refine ⟨p, ?_⟩
    simp only [Controller.step]
    split <;> exact found
  | registerNodesUp queue nodes => exact onPool queue _
  | registerNodesIdle queue idleNodes => exact onPool queue _
  | syncQueuedJobs queue jobIDs => exact onPool queue _
  | reclaimIdle => exact ⟨_, by rw [Controller.step, reclaimIdle_lookup, found]; rfl⟩
  | receive =>
    cases inbox : c.events with
    | nil => exact ⟨p, by simpa [Controller.step, inbox] using found⟩
    | cons ev rest =>
      obtain ⟨handled, lookup, -⟩ := receive_reaches env inbox
      rw [lookup]
      split
      · exact ⟨handled, rfl⟩
      · exact ⟨p, found⟩

/-- The rule for invariants of a pool: they hold of a fresh pool and every move a step
causes preserves them. -/
theorem step_invariant {I : Fleet → Prop}
    (created : ∀ ev rest, c.events = ev :: rest → ev.queue = q → c.pools.lookup q = none →
      I (Pool.create ev).fleet)
    (kept : ∀ s m, I s → Caused env c q a s m → I (s.step m))
    (before : ∀ p, c.pools.lookup q = some p → I p.fleet) :
    ∀ p, (c.step env a).1.pools.lookup q = some p → I p.fleet := by
  have onPool : ∀ queue f, (∀ p, c.pools.lookup q = some p → queue = q →
        Reaches Fleet.step (Caused env c q a) p.fleet (f p).1.fleet) →
      ∀ p, (c.onPool queue f).1.pools.lookup q = some p → I p.fleet := by
    intro queue f path p after
    by_cases here : queue = q
    · subst here
      rw [onPool_lookup] at after
      cases found : c.pools.lookup queue with
      | none => simp [found] at after
      | some old =>
        simp only [found, Option.map_some, Option.some.injEq] at after
        exact after ▸ (path old found rfl).invariant kept (before old found)
    · rw [onPool_lookup_ne (Ne.symm here)] at after
      exact before p after
  cases a with
  | setNodeController => exact before
  | send ev =>
    intro p after
    refine before p ?_
    simp only [Controller.step] at after
    split at after <;> exact after
  | registerNodesUp queue nodes =>
    refine onPool queue _ fun p _ here => ?_
    subst here
    exact nodesUp_reaches (fun _ _ => .up) nodes
  | registerNodesIdle queue idleNodes =>
    refine onPool queue _ fun p _ here => ?_
    subst here
    exact markIdle_reaches env.now idleNodes _ (fun _ _ => .idle) (fun _ _ => .busy)
      fun name member => (Assoc.mem_range _ _).mp member
  | syncQueuedJobs queue jobIDs =>
    refine onPool queue _ fun p found here => ?_
    subst here
    refine destroy_all_reaches env _ _ ((Assoc.nodup_range _ _).filter _)
      fun s id member kept pool ref target done call => ?_
    have booting : id ∈ p.provisioning := by simpa using (List.mem_filter.mp member).1
    have asked : Call.reclaim .queuedJobs pool ref "deallocate" true ∈
        (c.step env (.syncQueuedJobs queue jobIDs)).2 := by
      rw [Controller.step, syncQueuedJobs, onPool_calls, found]
      exact call
    exact .cancel (kept booting) target asked done
  | reclaimIdle =>
    intro p after
    rw [Controller.step, reclaimIdle_lookup] at after
    cases found : c.pools.lookup q with
    | none => simp [found] at after
    | some old =>
      simp only [found, Option.map_some, Option.some.injEq] at after
      exact after ▸ (reclaimPool_reaches found).invariant kept (before old found)
  | receive =>
    cases inbox : c.events with
    | nil => simpa [Controller.step, inbox] using before
    | cons ev rest =>
      obtain ⟨handled, lookup, path⟩ := receive_reaches env inbox
      intro p after
      rw [lookup] at after
      split at after
      case isFalse => exact before p after
      case isTrue here =>
        subst here
        cases after
        have configured : ∀ old : Pool, I old.fleet → I (old.configure ev).fleet :=
          fun old holds => kept _ _ holds (.configure inbox rfl)
        refine path.invariant kept ?_
        unfold ensurePool
        cases found : c.pools.lookup ev.queue with
        | none => exact configured _ (created ev rest inbox rfl found)
        | some old => exact configured _ (before old found)

end Controllers
end OpenTorque.Cec
