import OpenTorque.Cec.Ownership
import OpenTorque.Cec.Provenance
import OpenTorque.Sched.Exclusive

/-! Which jobs a scheduling cycle reports as alive to the capacity controller, and which
provisioning VMs the controller then destroys. The report is put together from the queued
jobs of the queues and from the jobs of the nodes, which the server joins with a comma and
a blank and the scheduler splits at the commas. -/
namespace OpenTorque.Sched
open Pbs

section Listed
variable {F : Type} [GoFloat F] {n : Node}

/-- The text of the `jobs` attribute of a node: an item of the MOM of that name counts
if the server has no jobs to list. -/
def jobsText (n : Node) : String :=
  if Text.join ", " n.assignedJobs = "" then (n.status.lookup "jobs").getD ""
  else Text.join ", " n.assignedJobs

/-- The ids that the scheduler reads off a node. -/
def listedJobs (n : Node) : List String :=
  if jobsText n = "" then [] else Text.split ',' (jobsText n)

def TellsJobs (a : Attr) : Prop := a.name = "jobs" ∧ a.value ≠ ""

instance : DecidablePred TellsJobs := fun _ => inferInstanceAs (Decidable (_ ∧ _))

theorem foldl_jobs_told {attrs : List Attr} {r : NodeInfo F × Bool} {jobs : List String}
    (agree : ∀ a ∈ attrs, TellsJobs a → Text.split ',' a.value = jobs)
    (some : r.1.jobs = jobs ∨ ∃ a ∈ attrs, TellsJobs a) :
    (attrs.foldl NodeInfo.read r).1.jobs = jobs := by
  have reads : ∀ (x : NodeInfo F × Bool) (a : Attr), (NodeInfo.read x a).1.jobs =
      if TellsJobs a then Text.split ',' a.value else x.1.jobs := NodeInfo.read_jobs
  exact @foldl_told (NodeInfo F × Bool) _ NodeInfo.read (·.1.jobs) TellsJobs _ _ reads attrs r jobs
    agree some

theorem foldl_jobs_silent {attrs : List Attr} (r : NodeInfo F × Bool)
    (silent : ∀ a ∈ attrs, ¬ TellsJobs a) : (attrs.foldl NodeInfo.read r).1.jobs = r.1.jobs :=
  foldl_jobs_told (fun a member told => absurd told (silent a member)) (.inl rfl)

theorem foldl_momItems (env : Env) (n : Node) (r : NodeInfo F × Bool) :
    ((momItems env n).foldl NodeInfo.read r).1.jobs =
      if (n.status.lookup "jobs").getD "" = "" then r.1.jobs
      else Text.split ',' ((n.status.lookup "jobs").getD "") := by
  have told : ∀ a ∈ momItems env n, TellsJobs a → n.status.lookup "jobs" = some a.value := by
    rintro a member ⟨key, -⟩
    obtain ⟨k, v, found, -, rfl⟩ := mem_momItems.mp member
    rw [← show k = "jobs" from key]
    exact found
  split
  case isTrue silent =>
    refine foldl_jobs_silent r fun a member tells => ?_
    rw [told a member tells] at silent
    exact tells.2 silent
  case isFalse reported =>
    refine foldl_jobs_told (fun a member tells => by rw [told a member tells, Option.getD_some]) ?_
    cases found : n.status.lookup "jobs" with
    | none => simp [found] at reported
    | some v =>
      rw [found, Option.getD_some] at reported
      exact .inr ⟨plain "jobs" v, mem_momItems.mpr ⟨"jobs", v, found, by decide, rfl⟩, rfl, reported⟩

/-- The server's own list comes last. -/
theorem foldl_jobItems (s : Server) (env : Env) (n : Node) (r : NodeInfo F × Bool) :
    ((jobItems s env n).foldl NodeInfo.read r).1.jobs =
      if Text.join ", " n.assignedJobs = "" then r.1.jobs
      else Text.split ',' (Text.join ", " n.assignedJobs) := by
  rw [jobItems]
  by_cases idle : n.assignedJobs = []
  · simp [idle, Text.join]
  · simp only [if_neg idle, List.foldl_cons, List.foldl_nil, NodeInfo.read_jobs, plain]
    by_cases empty : Text.join ", " n.assignedJobs = "" <;> simp [empty]

theorem parseNodeInfo_jobs (s : Server) (env : Env) (name : String) (n : Node) :
    (parseNodeInfo (s.nodeStatus env name n) : NodeInfo F).jobs = listedJobs n := by
  have later : ∀ a ∈ gresItems s env n ++ labels n, ¬ TellsJobs a := by
    rintro a member ⟨key, -⟩
    exact other_gresItems member (key ▸ by decide)
  have first : ∀ a ∈ [plain "state" n.state.stateName, plain "power_state" n.powerState,
      plain "np" (itoa n.numProcs), plain "ntype" "cluster"], ¬ TellsJobs a := by
    simp [TellsJobs, plain]
  rw [parseNodeInfo, NodeInfo.settle_jobs, nodeStatus_attrs, List.append_assoc, List.foldl_append,
    foldl_jobs_silent _ later, List.foldl_append, foldl_jobItems, List.foldl_append, foldl_momItems,
    foldl_jobs_silent _ first, listedJobs, jobsText]
  by_cases own : Text.join ", " n.assignedJobs = ""
  · simp only [if_pos own]
  · simp only [if_neg own]

end Listed

section Report
variable {F : Type} [GoFloat F] {cfg : Config} {limited : Bool} {v : View} {fuel : Nat}
  {usage : Assoc F} {s : Server} {out : Outcome F} {id : String}

/-- The job waits in a queue that the server knows. -/
def Waits (s : Server) (id : String) : Prop :=
  ∃ j, s.job id = some j ∧ j.state = .queued ∧ j.queue ∈ s.queueMgr

def OnNode (s : Server) (id : String) : Prop :=
  ∃ name n, s.nodeMgr.lookup name = some n ∧ id ∈ listedJobs n

theorem mem_queueMgr_counted (v : View) (s : Server) (name : String) :
    name ∈ (counted v s).queueMgr ↔ name ∈ s.queueMgr := by
  have refreshed : ∀ (t : Server) (other : String),
      name ∈ (t.refreshQueueCounts other).queueMgr ↔ name ∈ t.queueMgr := by
    intro t other
    rw [Server.refreshQueueCounts, Server.onQueues_queueMgr, QueueManager.onQueue]
    cases found : t.queueMgr.lookup other with
    | none => exact Iff.rfl
    | some q =>
      rw [AList.mem_insert, or_iff_right_of_imp]
      rintro rfl
      exact Assoc.mem_of_lookup found
  exact List.foldlRecOn (motive := fun t : Server => name ∈ t.queueMgr ↔ name ∈ s.queueMgr) _ _ Iff.rfl
    fun t same other _ => (refreshed t other).trans same

theorem name_of_mem_queueInfos {q : QueueInfo} (member : q ∈ queueInfos v s) :
    q.name ∈ s.queueMgr := by
  obtain ⟨obj, listed, rfl⟩ := List.mem_map.mp member
  obtain ⟨name, -, found⟩ := List.mem_filterMap.mp listed
  obtain ⟨queue, lookup, rfl⟩ := Option.map_eq_some_iff.mp found
  rw [QueueInfo.parseQueueInfo_name, ← mem_queueMgr_counted v]
  exact Assoc.mem_of_lookup lookup

theorem exists_queueInfo (v : View) {name : String} (known : name ∈ s.queueMgr) :
    ∃ q ∈ queueInfos v s, q.name = name := by
  obtain ⟨queue, lookup⟩ := Assoc.exists_lookup ((mem_queueMgr_counted v s name).mpr known)
  refine ⟨_, List.mem_map_of_mem (List.mem_filterMap.mpr
    ⟨name, (Assoc.mem_range _ _).mpr known, by rw [lookup]; rfl⟩), ?_⟩
  rw [QueueInfo.parseQueueInfo_name]
  rfl

theorem mem_cycleQueues_ids (cfg : Config) (v : View) (usage : Assoc F) (s : Server) :
    id ∈ (cycleQueues cfg v usage s).flatMap (fun q => q.jobs.map (·.id)) ↔ Waits s id := by
  simp only [List.mem_flatMap, List.mem_map]
  constructor
  · rintro ⟨q, member, j, listed, rfl⟩
    obtain ⟨r, known, rfl⟩ := mem_cycleQueues member
    obtain ⟨job, found, queued, named, -⟩ :=
      queued_of_mem_queueInfos known ((mem_sortJobs _ _).mp listed)
    exact ⟨job, found, queued, named ▸ name_of_mem_queueInfos known⟩
  · rintro ⟨job, found, queued, known⟩
    obtain ⟨q, member, named⟩ := exists_queueInfo v known
    obtain ⟨queue, state⟩ := JobInfo.parseJobInfo_label job id (v.jobEnv.order .resources)
    have object : job.status id (v.jobEnv.order .resources) ∈ jobObjects v (counted v s) := by
      refine List.mem_filterMap.mpr ⟨id, ?_, ?_⟩
      · rw [List.mem_insertionSort, (counted_managers v s).1]
        exact Assoc.mem_of_lookup found
      · rw [(counted_managers v s).1, show s.jobMgr.jobs.lookup id = some job from found]
        rfl
    have listed : parseJobInfo (job.status id (v.jobEnv.order .resources)) ∈ q.jobs := by
      rw [jobs_of_mem_queueInfos member, jobsOfQueue, List.mem_filter]
      refine ⟨List.mem_map_of_mem object, ?_⟩
      rw [queue, state, queued, named]
      simp [JobState.name]
    refine ⟨_, List.mem_map_of_mem ((mem_sortedQueues _ q).mpr member), _,
      (mem_sortJobs _ _).mpr listed, (JobInfo.parseJobInfo_kept _).1⟩

/-- The records of the nodes list what the snapshot listed, and else jobs that wait. -/
structure Traced (s : Server) (nodes : List (NodeInfo F)) : Prop where
  kept : ∀ id, OnNode s id → id ∈ nodes.flatMap (·.jobs)
  known : ∀ id ∈ nodes.flatMap (·.jobs), OnNode s id ∨ Waits s id

theorem traced_nodesOf (v : View) (s : Server) :
    Traced s (nodesOf (counted v s) v.nodeEnv : List (NodeInfo F)) := by
  have listed : ∀ id, id ∈ (nodesOf (counted v s) v.nodeEnv : List (NodeInfo F)).flatMap (·.jobs) ↔
      OnNode s id := by
    intro id
    simp only [List.mem_flatMap, mem_nodesOf, (counted_managers v s).2]
    constructor
    · rintro ⟨_, ⟨name, n, found, rfl⟩, here⟩
      exact ⟨name, n, found, parseNodeInfo_jobs (F := F) _ _ _ n ▸ here⟩
    · rintro ⟨name, n, found, here⟩
      exact ⟨_, ⟨name, n, found, rfl⟩, (parseNodeInfo_jobs (F := F) _ _ _ n).symm ▸ here⟩
  exact ⟨fun id => (listed id).mpr, fun id here => .inl ((listed id).mp here)⟩

omit [GoFloat F] in
theorem mem_jobs_debited {nodes : List (NodeInfo F)} {name : String} {j : JobInfo}
    (here : id ∈ (debited nodes name j).flatMap (·.jobs)) :
    id ∈ nodes.flatMap (·.jobs) ∨ id = j.id := by
  simp only [debited, List.mem_flatMap, List.mem_map] at here ⊢
  obtain ⟨_, ⟨n, member, rfl⟩, listed⟩ := here
  split at listed
  · rcases List.mem_append.mp listed with old | new
    · exact .inl ⟨n, member, old⟩
    · exact .inr (by simpa using new)
  · exact .inl ⟨n, member, listed⟩

omit [GoFloat F] in
theorem mem_jobs_of_mem {nodes : List (NodeInfo F)} {name : String} {j : JobInfo}
    (here : id ∈ nodes.flatMap (·.jobs)) : id ∈ (debited nodes name j).flatMap (·.jobs) := by
  simp only [debited, List.mem_flatMap, List.mem_map] at here ⊢
  obtain ⟨n, member, listed⟩ := here
  refine ⟨_, ⟨n, member, rfl⟩, ?_⟩
  split
  · exact List.mem_append_left _ listed
  · exact listed

/-- Starting a job that waits adds it to the list of one node. -/
theorem Traced.considered {queues : List QueueInfo} {env : Env} {t t' : Server}
    {nodes nodes' : List (NodeInfo F)} {j : JobInfo} (traced : Traced s nodes) (waits : Waits s j.id)
    (step : Considered cfg queues env t nodes j t' nodes') : Traced s nodes' := by
  cases step with
  | skipped => exact traced
  | refused node chosen answer => exact traced
  | accepted node chosen answer =>
    refine ⟨fun id here => mem_jobs_of_mem (traced.kept id here), fun id here => ?_⟩
    rcases mem_jobs_debited here with old | rfl
    · exact traced.known id old
    · exact .inr waits

/-- The report of a cycle names the jobs that wait and those that some node shows. -/
theorem mem_aliveJobs (ended : runCycle cfg limited v fuel usage s = some out) :
    id ∈ out.result.aliveJobs ↔ Waits s id ∨ OnNode s id := by
  rw [runCycle_eq] at ended
  obtain ⟨p, looped, rfl⟩ := Option.map_eq_some_iff.mp ended
  have traced : Traced s p.nodes := by
    refine loop_preserves (I := fun _ nodes => Traced s nodes) (fun env t nodes j t' nodes' pending => ?_)
      (fun j member => member) (traced_nodesOf v s) looped
    refine fun traced step => traced.considered ?_ step
    rw [← mem_cycleQueues_ids cfg v usage s]
    obtain ⟨q, listed, here⟩ := List.mem_flatMap.mp pending
    exact List.mem_flatMap.mpr ⟨q, listed, List.mem_map_of_mem here⟩
  rw [show id ∈ (result v (cycleQueues cfg v usage s) p).aliveJobs ↔ _ from RangeOrder.mem_visit _,
    List.mem_dedup, List.mem_append, mem_cycleQueues_ids]
  constructor
  · rintro (waits | here)
    · exact .inl waits
    · exact (traced.known id here).symm
  · exact Or.imp_right (traced.kept id)

end Report

end OpenTorque.Sched

namespace OpenTorque.Cec
open Transition
open Pbs (Server)

/-- A reclaim call does not take a VM away from a job that is not complete. -/
def Call.Spares (s : Server) : Call → Prop
  | .reclaim _ pool ref _ _ =>
    ∀ jobID j, pool.provisioning.lookup ref.vmID = some jobID → s.job jobID = some j →
      j.state = .complete
  | _ => True

section Sync
variable {env : Env} {s : Server} {alive : List String}

theorem destroyProvisioning_lookup (site : ReclaimSite) (p : Pool) {vmID other : String}
    (different : other ≠ vmID) :
    (destroyProvisioning env site p vmID).1.provisioning.lookup other = p.provisioning.lookup other := by
  unfold destroyProvisioning
  dsimp only
  split
  · rfl
  · exact AList.lookup_erase_ne different

/-- Every VM that is destroyed is bound to a job that is not on the list. -/
theorem run_destroyProvisioning_spares {p : Pool} {stale : List String} (nodup : stale.Nodup)
    (orphaned : ∀ id ∈ stale, p.orphaned alive id = true)
    (complete : ∀ id j, s.job id = some j → j.state ≠ .complete → id ∈ alive) :
    ∀ call ∈ (run (destroyProvisioning env .queuedJobs) p stale).2, call.Spares s := by
  induction stale generalizing p with
  | nil => simp
  | cons vmID stale ih =>
    obtain ⟨alone, nodup⟩ := List.nodup_cons.mp nodup
    rw [List.forall_mem_cons] at orphaned
    rw [run_cons, destroyProvisioning_calls, List.singleton_append, List.forall_mem_cons]
    constructor
    · intro jobID j bound found
      by_contra lives
      have gone := orphaned.1
      simp [Pool.orphaned, bound, complete jobID j found lives] at gone
    · refine ih nodup fun id member => ?_
      have different : id ≠ vmID := fun same => alone (same ▸ member)
      have there := orphaned.2 id member
      rwa [Pool.orphaned, destroyProvisioning_lookup _ p different, ← Pool.orphaned]

theorem syncQueuedJobs_spares (c : Controller) (queue : String)
    (complete : ∀ id j, s.job id = some j → j.state ≠ .complete → id ∈ alive) :
    ∀ call ∈ (syncQueuedJobs env c queue alive).2, call.Spares s := by
  rw [syncQueuedJobs, onPool_calls]
  cases c.pools.lookup queue with
  | none => simp
  | some p =>
    refine run_destroyProvisioning_spares ((Assoc.nodup_range _ _).filter _) (fun id member => ?_) complete
    exact (List.mem_filter.mp member).2

end Sync

section Cycle
open Sched
variable {F : Type} [GoFloat F]

/-- A cycle reports every job that is not complete, and no VM is taken away from such a
job, exactly if each of them waits in a known queue or is shown by a node. A cycle of
round-robin ends if no closed queue has queued jobs. -/
theorem aliveJobs_complete_iff (cfg : Config) (limited : Bool) (v : View) (usage : Assoc F)
    (s : Server) :
    (Terminating cfg v s → ∃ fuel out, runCycle cfg limited v fuel usage s = some out) ∧
      ∀ fuel out, runCycle cfg limited v fuel usage s = some out →
        (((∀ id j, s.job id = some j → j.state ≠ .complete → id ∈ out.result.aliveJobs) ∧
            ∀ env c queue, ∀ call ∈ (syncQueuedJobs env c queue out.result.aliveJobs).2,
              call.Spares s) ↔
          ∀ id j, s.job id = some j → j.state ≠ .complete →
            (j.state = .queued ∧ j.queue ∈ s.queueMgr) ∨
              ∃ name n, s.nodeMgr.lookup name = some n ∧ id ∈ listedJobs n) := by
  refine ⟨fun terminating => ?_, fun fuel out ended => ?_⟩
  · obtain ⟨enough, ends⟩ := runCycle_ends terminating limited usage
    exact ⟨enough, ends enough (le_refl enough)⟩
  have reported : ∀ id j, s.job id = some j → (id ∈ out.result.aliveJobs ↔
      (j.state = .queued ∧ j.queue ∈ s.queueMgr) ∨
        ∃ name n, s.nodeMgr.lookup name = some n ∧ id ∈ listedJobs n) := by
    intro id j found
    have waits : Waits s id ↔ j.state = .queued ∧ j.queue ∈ s.queueMgr := by
      simp [Waits, found]
    rw [mem_aliveJobs ended, waits, OnNode]
  constructor
  · rintro ⟨complete, -⟩ id j found lives
    exact (reported id j found).mp (complete id j found lives)
  · intro shown
    have complete : ∀ id j, s.job id = some j → j.state ≠ .complete → id ∈ out.result.aliveJobs :=
      fun id j found lives => (reported id j found).mpr (shown id j found lives)
    exact ⟨complete, fun env c queue => syncQueuedJobs_spares c queue complete⟩

end Cycle

/-- Two jobs of a cloud queue run on one node. -/
def sharedNode : Server :=
  Pbs.fromEmpty (Pbs.atOnce [.manager (.createQueue "cloud" []),
    .manager (.createNode "n1" [{ name := "np", value := "4" }])] ++
    [Pbs.reports "n1" ["state=free"]] ++
    Pbs.atOnce [.queueJob "alice@host" "cloud" [], .commit "0.server",
      .queueJob "alice@host" "cloud" [], .commit "1.server",
      .runJob "0.server" "n1", .runJob "1.server" "n1"])

/-- The controller has ordered a VM for the second job. -/
def orderedForSecond : Controller := (scaleOutRun.foldl (fun c (env, a) => (c.step env a).1) {})

/-- The report has a blank before the second id, and the VM of a running job is destroyed. -/
theorem running_job_not_reported :
    (sharedNode.job "1.server").map (·.state) = some .running ∧
      (Sched.runCycle {} false (.at 2) 9 (∅ : Assoc Unit) sharedNode).map (·.result.aliveJobs) =
        some ["0.server", " 1.server"] ∧
      (orderedForSecond.pools.lookup "cloud").map (fun p => p.provisioning.lookup "vm-1") =
        some (some "1.server") ∧
      (syncQueuedJobs { now := 3 } orderedForSecond "cloud" ["0.server", " 1.server"]).2.map Call.names =
        [["vm-1"]] := by
  decide +kernel

end OpenTorque.Cec
