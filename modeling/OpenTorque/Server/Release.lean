import Mathlib.Logic.Function.Iterate
import OpenTorque.Server.Lifecycle
import OpenTorque.Server.Occupancy

/-! What a node holds after a job was assigned to it and released again. A release takes
its slots off whether or not the node lists the job, and an `exec_host` that names a node
twice releases it twice, so everything here is said of a number of releases. -/
namespace OpenTorque.Pbs

namespace Node
variable {n : Node} {id : String} {slots : Int}

def load (n : Node) : Int × List String := (n.slotsUsed, n.assignedJobs)

def releases (n : Node) (id : String) (slots : Int) (times : Nat) : Node :=
  (·.releaseJob id slots)^[times] n

theorem releases_succ (times : Nat) :
    n.releases id slots (times + 1) = (n.releaseJob id slots).releases id slots times := rfl

theorem releaseJob_slotsUsed (id : String) (count : IsCount slots) (nonneg : 0 ≤ n.slotsUsed)
    (fits : n.slotsUsed ≤ maxInt) :
    (n.releaseJob id slots).slotsUsed = max (n.slotsUsed - slots) 0 := by
  have exact : wrap64 (n.slotsUsed - slots) = n.slotsUsed - slots := by
    obtain ⟨positive, bound⟩ := count
    refine wrap64_of_fits ?_ (by omega)
    rw [minInt]
    rw [maxInt] at bound
    omega
  simp only [releaseJob, occupy, exact]

theorem releaseJob_range (n : Node) (id : String) (slots : Int) :
    0 ≤ (n.releaseJob id slots).slotsUsed ∧ (n.releaseJob id slots).slotsUsed ≤ maxInt :=
  ⟨le_max_right _ _, max_le (wrap64_fits _).2 (by decide)⟩

theorem releases_slotsUsed (id : String) (count : IsCount slots) (nonneg : 0 ≤ n.slotsUsed)
    (fits : n.slotsUsed ≤ maxInt) (times : Nat) :
    (n.releases id slots times).slotsUsed = max (n.slotsUsed - times * slots) 0 := by
  induction times generalizing n with
  | zero => simpa [releases] using nonneg
  | succ times ih =>
    have once := releaseJob_slotsUsed id count nonneg fits
    obtain ⟨low, high⟩ := n.releaseJob_range id slots
    have rest : 0 ≤ (times : Int) * slots := Int.mul_nonneg (by omega) count.1.le
    rw [releases_succ, ih low high, once, Int.natCast_succ, Int.add_mul, Int.one_mul]
    have positive := count.1
    omega

theorem releases_count (n : Node) (id : String) (slots : Int) (times : Nat) :
    (n.releases id slots times).assignedJobs.count id = n.assignedJobs.count id - times := by
  induction times generalizing n with
  | zero => rfl
  | succ times ih =>
    rw [releases_succ, ih, releaseJob_assignedJobs, List.count_erase_self]
    omega

theorem not_mem_releases {times : Nat} :
    id ∉ (n.releases id slots times).assignedJobs ↔ n.assignedJobs.count id ≤ times := by
  rw [← List.count_eq_zero, releases_count]
  omega

theorem releases_of_not_mem (apart : id ∉ n.assignedJobs) (times : Nat) :
    (n.releases id slots times).assignedJobs = n.assignedJobs := by
  induction times generalizing n with
  | zero => rfl
  | succ times ih =>
    have kept : (n.releaseJob id slots).assignedJobs = n.assignedJobs := List.erase_of_not_mem apart
    rw [releases_succ, ih (kept ▸ apart), kept]

/-- A release changes nothing only on a node without used slots that does not list the job. -/
theorem releases_load_iff (count : IsCount slots) (times : Nat) :
    (n.releases id slots times).load = n.load ↔
      times = 0 ∨ n.slotsUsed = 0 ∧ id ∉ n.assignedJobs := by
  rw [load, load, Prod.mk.injEq]
  cases times with
  | zero => simp [releases]
  | succ times =>
    -- The first release brings any count into range, and the others keep it there.
    obtain ⟨low, high⟩ := n.releaseJob_range id slots
    have total : (n.releases id slots (times + 1)).slotsUsed =
        max ((n.releaseJob id slots).slotsUsed - times * slots) 0 := releases_slotsUsed id count low high times
    have others : 0 ≤ (times : Int) * slots := Int.mul_nonneg (by omega) count.1.le
    constructor
    · rintro ⟨used, jobs⟩
      have apart : id ∉ n.assignedJobs := by
        have counted := n.releases_count id slots (times + 1)
        rw [jobs] at counted
        rw [← List.count_eq_zero]
        omega
      have once := releaseJob_slotsUsed (n := n) id count (by omega) (by omega)
      have positive := count.1
      exact .inr ⟨by omega, apart⟩
    · rintro (none | ⟨idle, apart⟩)
      · omega
      · have fits : n.slotsUsed ≤ maxInt := by rw [idle]; decide
        have once := releaseJob_slotsUsed id count idle.ge fits
        have positive := count.1
        exact ⟨by omega, releases_of_not_mem apart _⟩

theorem append_erase_iff {jobs : List String} :
    (jobs ++ [id]).erase id = jobs ↔ ∀ x ∈ jobs.dropWhile (· ≠ id), x = id := by
  have shifted (rest : List String) : rest ++ [id] = id :: rest ↔ ∀ x ∈ rest, x = id := by
    induction rest with
    | nil => simp
    | cons x rest ih =>
      rw [List.cons_append, List.cons.injEq, List.forall_mem_cons]
      refine and_congr_right fun here => ?_
      rw [here, ih]
  induction jobs with
  | nil => simp
  | cons x jobs ih =>
    by_cases here : x = id
    · subst here
      simp [shifted]
    · simpa [here, List.erase_cons] using ih

def occupancy (n : Node) : Int × List String × Bool := (n.slotsUsed, n.assignedJobs, n.state.job)

theorem occupancy_assignJob_ne : (n.assignJob id slots).occupancy ≠ n.occupancy := by
  intro same
  have lists := congrArg (·.2.1.length) same
  simp [occupancy] at lists

/-- The node forgets a job that took `taken` slots on it when `credit` are given back: the
two are the same, or nothing else was counted; the job was not listed before, or only at
the end; and the flag `job-exclusive` was up unless the job is alone or leaves a slot. -/
def Restorable (n : Node) (id : String) (taken credit : Int) : Prop :=
  (taken = credit ∨ n.slotsUsed = 0 ∧ taken ≤ credit) ∧
    (∀ x ∈ n.assignedJobs.dropWhile (· ≠ id), x = id) ∧
    if n.assignedJobs = [] then n.state.job = false
    else n.state.job = true ∨ wrap64 (n.slotsUsed + taken) < n.slotsTotal

theorem occupancy_assign_release_iff {taken credit : Int} (asked : IsCount taken)
    (given : IsCount credit) (nonneg : 0 ≤ n.slotsUsed) (fits : n.slotsUsed ≤ maxInt) :
    ((n.assignJob id taken).releaseJob id credit).occupancy = n.occupancy ↔
      n.Restorable id taken credit := by
  have used : ((n.assignJob id taken).releaseJob id credit).slotsUsed = n.slotsUsed ↔
      taken = credit ∨ n.slotsUsed = 0 ∧ taken ≤ credit := by
    have total : ((n.assignJob id taken).releaseJob id credit).slotsUsed =
        max (wrap64 (n.slotsUsed + taken - credit)) 0 := by
      simp only [releaseJob, assignJob, occupy, wrap64_wrap64_sub]
    obtain ⟨askedPos, askedFits⟩ := asked
    obtain ⟨givenPos, givenFits⟩ := given
    by_cases beyond : maxInt < n.slotsUsed + taken - credit
    · have wrapped := wrap64_neg_of_over beyond (by omega)
      omega
    · have low : minInt ≤ n.slotsUsed + taken - credit := by
        rw [maxInt] at givenFits
        rw [minInt]
        omega
      rw [wrap64_of_fits low (not_lt.mp beyond)] at total
      omega
  have flag (same : (n.assignedJobs ++ [id]).erase id = n.assignedJobs) :
      ((n.assignJob id taken).releaseJob id credit).state.job = n.state.job ↔
        if n.assignedJobs = [] then n.state.job = false
        else n.state.job = true ∨ wrap64 (n.slotsUsed + taken) < n.slotsTotal := by
    simp only [releaseJob, assignJob, occupy, same]
    by_cases alone : n.assignedJobs = []
    · cases n.state.job <;> simp [alone]
    · cases n.state.job <;> simp [alone]
  rw [occupancy, occupancy, Restorable, Prod.mk.injEq, Prod.mk.injEq, used, releaseJob_assignedJobs,
    assignJob_assignedJobs]
  refine and_congr_right fun _ => ?_
  rw [← append_erase_iff]
  exact and_congr_right flag

end Node

namespace Server
variable {s t u : Server} {env : Env} {id given name : String} {names : List String} {j k : Job}
  {slots : Int}

theorem lookup_foldl_onNode (change : Node → Node) (names : List String) (x : String) :
    (names.foldl (fun s name => s.onNode name change) s).nodeMgr.lookup x =
      (s.nodeMgr.lookup x).map change^[names.count x] := by
  induction names generalizing s with
  | nil => simp
  | cons name names ih =>
    rw [List.foldl_cons, ih, onNodes_nodeMgr, NodeManager.lookup_onNode, Option.map_map,
      List.count_cons]
    by_cases here : x = name
    · simp [here, Function.iterate_succ]
    · simp [here, Ne.symm here]

theorem lookup_releaseOn (x : String) : (s.releaseOn names id slots).nodeMgr.lookup x =
    (s.nodeMgr.lookup x).map (·.releases id slots (names.count x)) := lookup_foldl_onNode _ names x

theorem lookup_assignOn (nodup : names.Nodup) (x : String) :
    (s.assignOn names id slots).nodeMgr.lookup x =
      (s.nodeMgr.lookup x).map fun n => if x ∈ names then n.assignJob id slots else n := by
  refine (lookup_foldl_onNode _ names x).trans ?_
  by_cases member : x ∈ names
  · simp [member, List.count_eq_one_of_mem nodup member]
  · simp [member, List.count_eq_zero_of_not_mem member]

/-! ### Obituaries of jobs that do not run -/

/-- No node's slots and jobs have changed, nor the state and exit status of the job. -/
def Unmoved (s t : Server) (id : String) : Prop :=
  (∀ name, (t.nodeMgr.lookup name).map Node.load = (s.nodeMgr.lookup name).map Node.load) ∧
    (t.job id).map (fun j => (j.state, j.exitStatus)) =
      (s.job id).map (fun j => (j.state, j.exitStatus))

/-- None of the nodes has slots in use or lists the job. -/
def Vacant (s : Server) (names : List String) (id : String) : Prop :=
  ∀ name ∈ names, ∀ n, s.nodeMgr.lookup name = some n → n.slotsUsed = 0 ∧ id ∉ n.assignedJobs

theorem releaseOn_load_iff (count : IsCount slots) :
    (∀ name, ((s.releaseOn names id slots).nodeMgr.lookup name).map Node.load =
      (s.nodeMgr.lookup name).map Node.load) ↔ s.Vacant names id := by
  refine forall_congr' fun name => ?_
  rw [lookup_releaseOn, Option.map_map]
  cases s.nodeMgr.lookup name with
  | none => simp
  | some n =>
    simp only [Option.map_some, Function.comp_apply, Option.some.injEq, Node.releases_load_iff count,
      List.count_eq_zero]
    constructor
    · rintro (apart | idle) member n rfl
      · exact absurd member apart
      · exact idle
    · intro idle
      by_cases member : name ∈ names
      · exact .inr (idle member n rfl)
      · exact .inl member

theorem releaseNodeResources_eq (s : Server) (env : Env) (execHost given : String) :
    ∃ slots, IsCount slots ∧ s.releaseNodeResources env execHost given =
      s.releaseOn (Job.hostNames execHost) given slots := by
  refine ⟨_, isCount_getD fun slots asked => ?_, rfl⟩
  obtain ⟨entry, -, rfl⟩ := Option.map_eq_some_iff.mp asked
  exact entry.2.requestedCPUs_isCount

def Heard (s : Server) (remote : String) (privileged : Bool) : Prop :=
  privileged = true ∨ remote ∈ s.authMap

instance (s : Server) (remote : String) (privileged : Bool) : Decidable (s.Heard remote privileged) :=
  inferInstanceAs (Decidable (_ ∨ _))

variable {remote : String} {privileged : Bool} {status : Int} {attrs : List Attr}

theorem handleJobObit_heard (heard : s.Heard remote privileged)
    (found : s.getJob env given = some (id, j)) :
    (s.handleJobObit env remote privileged given status attrs).server =
      s.finish env given id j (obituary j env status attrs) := by
  have accepted : ¬ (!privileged && remote ∉ s.authMap) = true := by
    rcases heard with port | known <;> simp [*]
  rw [handleJobObit, if_neg accepted, found]
  rfl

theorem handleJobObit_unheard (unheard : ¬ s.Heard remote privileged) :
    (s.handleJobObit env remote privileged given status attrs).server = s := by
  obtain ⟨port, unknown⟩ := not_or.mp unheard
  simp [handleJobObit, port, unknown, reject]

theorem finish_load_iff (done : Job) :
    (∀ name, ((s.finish env given id j done).nodeMgr.lookup name).map Node.load =
      (s.nodeMgr.lookup name).map Node.load) ↔
      j.execHost = "" ∨ s.Vacant (Job.hostNames j.execHost) given := by
  by_cases free : j.execHost = ""
  · simp [finish, free]
  · obtain ⟨slots, count, released⟩ :=
      (s.putJob id done).releaseNodeResources_eq env j.execHost given
    simp only [finish, free, if_false, released, onQueues_nodeMgr, onStore_nodeMgr, false_or]
    exact releaseOn_load_iff (s := s.putJob id done) count

theorem finish_unmoved_iff (found : s.getJob env given = some (id, j)) :
    s.Unmoved (s.finish env given id j (obituary j env status attrs)) id ↔
      j.state = .complete ∧ j.exitStatus = status ∧
        (j.execHost = "" ∨ s.Vacant (Job.hostNames j.execHost) given) := by
  rw [Unmoved, finish_load_iff, job_finish, Function.update_self, job_of_getJob found]
  simp only [Option.map_some, Option.some.injEq, Prod.mk.injEq, obituary, Job.setState_state]
  tauto

theorem authMap_finish (done : Job) : (s.finish env given id j done).authMap = s.authMap := by
  unfold finish
  split
  · rfl
  · exact @view_foldl _ authMap _ _ _ _ fun _ _ => rfl

/-- An obituary leaves the nodes and the job as they are only if it is not heard, or if it
repeats the exit status of a complete job whose nodes have nothing left to release. In
particular the second of two is without effect only if the first left the nodes idle. -/
theorem obituary_unmoved_iff (found : s.getJob env given = some (id, j)) (remote : String)
    (privileged : Bool) (status : Int) (attrs : List Attr) :
    let obit := Step.request (.jobObit remote privileged given status attrs)
    let t := s.step env obit
    (s.Unmoved t id ↔ ¬ s.Heard remote privileged ∨ j.state = .complete ∧ j.exitStatus = status ∧
      (j.execHost = "" ∨ s.Vacant (Job.hostNames j.execHost) given)) ∧
    ∀ env' k, s.Heard remote privileged → t.getJob env' given = some (id, k) →
      (t.Unmoved (t.step env' obit) id ↔
        j.execHost = "" ∨ t.Vacant (Job.hostNames j.execHost) given) := by
  simp only [step, handle]
  by_cases heard : s.Heard remote privileged
  · rw [handleJobObit_heard heard found]
    refine ⟨by simp [finish_unmoved_iff found, heard], fun env' k _ again => ?_⟩
    generalize ended : s.finish env given id j (obituary j env status attrs) = t at again ⊢
    have still : t.Heard remote privileged := by
      rw [Heard, ← ended, authMap_finish]
      exact heard
    obtain rfl : obituary j env status attrs = k := by
      have job := job_of_getJob again
      rw [← ended, job_finish, Function.update_self] at job
      exact Option.some.inj job
    rw [handleJobObit_heard still again, finish_unmoved_iff again]
    simp [obituary]
  · rw [handleJobObit_unheard heard]
    exact ⟨by simp [Unmoved, heard], fun _ _ heard' => absurd heard' heard⟩

end Server

/-- The obituary of the only job of a node, sent a second time. -/
theorem obituary_unmoved_of_idle_node :
    let s := fromEmpty (atOnce endedRun)
    (∃ j, s.getJob { now := 2 } "0.server" = some ("0.server", j) ∧ j.state ≠ .running) ∧
      s.Unmoved (s.step { now := 2 } (.request (.jobObit "n1" true "0.server" 0 []))) "0.server" := by
  intro s
  have ended : (s.getJob { now := 2 } "0.server").any (fun found => found.1 = "0.server" ∧
      found.2.state = .complete ∧ found.2.exitStatus = 0) = true := by decide +kernel
  have free : ∀ name n, s.nodeMgr.lookup name = some n →
      n.slotsUsed = 0 ∧ "0.server" ∉ n.assignedJobs := by decide +kernel
  obtain ⟨⟨_, j⟩, found, holds⟩ := (Option.any_eq_true _ _).mp ended
  obtain ⟨rfl, (complete : j.state = .complete), exit⟩ := of_decide_eq_true holds
  refine ⟨⟨j, found, by simp [complete]⟩, ?_⟩
  exact (Server.obituary_unmoved_iff found "n1" true 0 []).1.mpr
    (.inr ⟨complete, exit, .inr fun name _ n => free name n⟩)

/-- Two jobs are started on a node with two processors, and the first of them ends. -/
def sharedRun : List Request :=
  [.manager (.createQueue "batch" []), .manager (.createNode "n1" [{ name := "np", value := "2" }]),
    .queueJob "alice@host" "batch" [], .commit "0.server", .queueJob "bob@host" "batch" [],
    .commit "1.server", .runJob "0.server" "n1", .runJob "1.server" "n1",
    .jobObit "n1" true "0.server" 0 []]

/-- Sent again, the obituary takes the slot of the job that still runs. -/
theorem repeated_obituary_frees_slot :
    let s := fromEmpty (atOnce sharedRun)
    let t := s.step { now := 2 } (.request (.jobObit "n1" true "0.server" 0 []))
    (s.job "0.server").any (·.state = .complete) = true ∧
      (t.job "1.server").any (·.state = .running) = true ∧
      (s.nodeMgr.lookup "n1").map Node.load = some (1, ["1.server"]) ∧
      (t.nodeMgr.lookup "n1").map Node.load = some (0, ["1.server"]) ∧
      ¬ s.Unmoved t "0.server" := by
  intro s t
  have facts : (s.job "0.server").any (·.state = .complete) = true ∧
      (t.job "1.server").any (·.state = .running) = true ∧
      (s.nodeMgr.lookup "n1").map Node.load = some (1, ["1.server"]) ∧
      (t.nodeMgr.lookup "n1").map Node.load = some (0, ["1.server"]) := by decide +kernel
  obtain ⟨complete, running, before, after⟩ := facts
  refine ⟨complete, running, before, after, fun unmoved => ?_⟩
  have same := unmoved.1 "n1"
  simp [before, after] at same

/-! ### Running jobs that go back to their queue -/

/-- The ways a running job is put back into its queue: a rerun request, the round of
`requeueNodeJobs` for the job on a node that is down, the failure of a dispatch to a node,
and a restart whose MOM no longer knows the job. -/
inductive Requeue where
  | rerun
  | nodeDown (name : String)
  | undispatched (node : String) (detached : Bool)
  | recovered
  deriving DecidableEq, Repr

namespace Requeue

/-- The server after the job `j`, found under `given` and stored under `id`, was requeued. -/
def after (s : Server) (env : Env) (given id : String) (j : Job) : Requeue → Server
  | .rerun => (s.handleRerunJob env given).server
  | .nodeDown name => Server.requeueFrom env name s given
  | .undispatched node detached => s.dispatchFailed env { job := id, node, detached }
  | .recovered => s.requeueRecoveredJob env id j

def released (j : Job) : Requeue → List String
  | .rerun => if j.execHost = "" then [] else [Text.before '/' j.execHost]
  | .nodeDown name => [name]
  | .undispatched node detached => if detached then [] else [node]
  | .recovered => Job.hostNames j.execHost

def credit (j : Job) : Requeue → Int
  | .recovered => max j.nodeRequest.2 1
  | _ => j.requestedCPUs

variable {s : Server} {env : Env} {given id : String} {j : Job}

theorem credit_isCount (path : Requeue) (j : Job) : IsCount (path.credit j) := by
  have asked := j.nodeRequest_isCount
  cases path with
  | recovered => exact ⟨lt_max_of_lt_right one_pos, max_le asked.2 (by decide)⟩
  | _ => exact j.requestedCPUs_isCount

section Found
variable (path : Requeue) (found : s.getJob env given = some (id, j)) (running : j.state = .running)
include found running

theorem nodeMgr_after : (path.after s env given id j).nodeMgr =
    (s.releaseOn (path.released j) id (path.credit j)).nodeMgr := by
  cases path with
  | rerun =>
    simp only [after, released, Server.handleRerunJob, found, running, true_and]
    split <;> simp_all <;> rfl
  | nodeDown name =>
    simp only [after, Server.requeueFrom, found, running, if_true]
    rfl
  | undispatched node detached =>
    have object : s.jobMgr.object id = some j := by
      rw [JobManager.object, s.jobMgr.getJob_lookup _ _ found]
      rfl
    simp only [after, released, Server.dispatchFailed, Server.undoJobDispatch,
      Server.endDispatch_jobMgr, object]
    cases detached <;> rfl
  | recovered => rfl

theorem job_after : ((path.after s env given id j).job id).map (·.state) = some .queued := by
  have requeued (t : Server) : ((t.requeue env id j).job id).map (·.state) = some .queued := by
    rw [Server.job_requeue, Function.update_self]
    rfl
  cases path with
  | rerun =>
    simp only [after, Server.handleRerunJob, found, running, true_and, true_or, if_true]
    split <;> exact requeued _
  | nodeDown name =>
    simp only [after, Server.requeueFrom, found, running, if_true]
    exact requeued _
  | undispatched node detached =>
    have known := Server.job_of_getJob found
    have object : s.jobMgr.object id = some j := by
      rw [JobManager.object, s.jobMgr.getJob_lookup _ _ found]
      rfl
    have reverted (t : Server) (same : t.job = s.job) (k : Job) (queued : k.state = .queued) :
        ((t.onJobs (·.putObject id k)).job id).map (·.state) = some .queued := by
      rw [Server.job_putObject (same ▸ known), Function.update_self, Option.map_some, queued]
    simp only [after, Server.dispatchFailed, Server.undoJobDispatch, Server.endDispatch_jobMgr, object,
      Server.job_onQueues]
    cases detached <;> exact reverted _ rfl _ rfl
  | recovered => exact requeued _

end Found

end Requeue

namespace Server
variable {s t : Server} {env : Env} {given id : String} {j : Job}

/-- No node lists the job any more, and on each of its hosts the slots it took are free. -/
def GaveBack (s t : Server) (id : String) (j : Job) (taken : String → Int) : Prop :=
  (∀ name n, t.nodeMgr.lookup name = some n → id ∉ n.assignedJobs) ∧
    ∀ name ∈ j.hosts, (t.nodeMgr.lookup name).map (·.slotsUsed) =
      (s.nodeMgr.lookup name).map fun n => n.slotsUsed - taken name

/-- The releases cover every listing of the job, and on each host they add up to the slots
the job took there, or to more on a host that it has to itself. -/
def Covered (s : Server) (id : String) (j : Job) (taken : String → Int) (names : List String)
    (credit : Int) : Prop :=
  ∀ name n, s.nodeMgr.lookup name = some n → n.assignedJobs.count id ≤ names.count name ∧
    (name ∈ j.hosts → names.count name * credit = taken name ∨
      n.slotsUsed = taken name ∧ taken name ≤ names.count name * credit)

theorem releaseOn_gaveBack_iff {names : List String} {credit : Int} {taken : String → Int}
    (count : IsCount credit) (range : ∀ name ∈ j.hosts, ∀ n, s.nodeMgr.lookup name = some n →
      0 ≤ taken name ∧ taken name ≤ n.slotsUsed ∧ n.slotsUsed ≤ maxInt) :
    s.GaveBack (s.releaseOn names id credit) id j taken ↔ s.Covered id j taken names credit := by
  have listed (name : String) : (∀ n, (s.releaseOn names id credit).nodeMgr.lookup name = some n →
      id ∉ n.assignedJobs) ↔ ∀ n, s.nodeMgr.lookup name = some n →
        n.assignedJobs.count id ≤ names.count name := by
    rw [lookup_releaseOn]
    cases s.nodeMgr.lookup name with
    | none => simp
    | some n => simp [Node.not_mem_releases]
  have freed (name : String) (host : name ∈ j.hosts) :
      ((s.releaseOn names id credit).nodeMgr.lookup name).map (·.slotsUsed) =
        (s.nodeMgr.lookup name).map (fun n => n.slotsUsed - taken name) ↔
      ∀ n, s.nodeMgr.lookup name = some n → names.count name * credit = taken name ∨
        n.slotsUsed = taken name ∧ taken name ≤ names.count name * credit := by
    rw [lookup_releaseOn]
    cases found : s.nodeMgr.lookup name with
    | none => simp
    | some n =>
      obtain ⟨nonneg, within, fits⟩ := range name host n found
      have total := Node.releases_slotsUsed (n := n) id count (nonneg.trans within) fits (names.count name)
      have given : 0 ≤ (names.count name : Int) * credit := Int.mul_nonneg (by omega) count.1.le
      simp only [Option.map_some, Option.some.injEq, total, forall_eq']
      omega
  constructor
  · rintro ⟨gone, back⟩ name n present
    exact ⟨(listed name).mp (gone name) n present,
      fun host => (freed name host).mp (back name host) n present⟩
  · intro covered
    exact ⟨fun name => (listed name).mpr fun n present => (covered name n present).1,
      fun name host => (freed name host).mpr fun n present => (covered name n present).2 host⟩

/-- A round of `requeueNodeJobs` for another job leaves the job alone. -/
theorem job_requeueFrom {name x : String} (other : ∀ k, s.getJob env x ≠ some (id, k)) :
    (requeueFrom env name s x).job id = s.job id := by
  rw [requeueFrom]
  cases found : s.getJob env x with
  | none => rfl
  | some entry =>
    obtain ⟨key, k⟩ := entry
    dsimp only
    split
    · have apart : id ≠ key := fun same => other k (same ▸ found)
      rw [job_requeue, Function.update_of_ne apart]
      rfl
    · rfl

theorem requeueFrom_queued {name x : String} (queued : (s.job id).map (·.state) = some .queued) :
    ((requeueFrom env name s x).job id).map (·.state) = some .queued := by
  by_cases same : ∃ k, s.getJob env x = some (id, k)
  · obtain ⟨k, found⟩ := same
    have state : k.state = .queued := by simpa [job_of_getJob found] using queued
    simp [requeueFrom, found, state, job_of_getJob found]
  · rw [job_requeueFrom (not_exists.mp same), queued]

/-- `requeueNodeJobs` takes every running job of the node back in one of its rounds, from the
state that the rounds before it have left, and the rounds after it leave the job queued. -/
theorem requeueNodeJobs_round {name : String} {n : Node}
    (enabled : s.cfg.flag "disable_automatic_requeue" = false) (node : s.nodeMgr.lookup name = some n)
    (listed : id ∈ n.assignedJobs) (trimmed : Text.trimSpace id = id) (found : s.job id = some j)
    (running : j.state = .running) : ∃ (u : Server) (given : String) (rest : List String),
      u.getJob env given = some (id, j) ∧
      s.requeueNodeJobs env name =
        rest.foldl (requeueFrom env name) ((Requeue.nodeDown name).after u env given id j) ∧
      ((s.requeueNodeJobs env name).job id).map (·.state) = some .queued := by
  rw [requeueNodeJobs, enabled, if_neg Bool.false_ne_true, node]
  dsimp only
  generalize n.assignedJobs = names at listed
  clear enabled node
  induction names generalizing s with
  | nil => cases listed
  | cons x names ih =>
    rw [List.foldl_cons]
    by_cases now : ∃ k, s.getJob env x = some (id, k)
    · obtain ⟨k, here⟩ := now
      obtain rfl : k = j := Option.some.inj ((job_of_getJob here).symm.trans found)
      refine ⟨s, x, names, here, rfl, ?_⟩
      exact List.foldlRecOn (motive := fun t : Server => (t.job id).map (·.state) = some .queued)
        names _ ((Requeue.nodeDown name).job_after here running) fun t queued y _ => requeueFrom_queued queued
    · have later : id ∈ names := by
        rcases List.mem_cons.mp listed with rfl | later
        · exact absurd ⟨j, getJob_of_trimmed trimmed found⟩ now
        · exact later
      exact ih ((job_requeueFrom (not_exists.mp now)).trans found) later

/-- A running job that is requeued has given back everything exactly if the nodes and slots
that its way back releases cover those it held. -/
theorem requeue_gave_back_iff (path : Requeue) (found : s.getJob env given = some (id, j))
    (running : j.state = .running) (taken : String → Int)
    (range : ∀ name ∈ j.hosts, ∀ n, s.nodeMgr.lookup name = some n →
      0 ≤ taken name ∧ taken name ≤ n.slotsUsed ∧ n.slotsUsed ≤ maxInt) :
    let t := path.after s env given id j
    (t.job id).map (·.state) = some .queued ∧
      (s.GaveBack t id j taken ↔ s.Covered id j taken (path.released j) (path.credit j)) := by
  refine ⟨path.job_after found running, ?_⟩
  rw [← releaseOn_gaveBack_iff (path.credit_isCount j) range, GaveBack, GaveBack,
    path.nodeMgr_after found running]

end Server

/-- The only job of a node is rerun. -/
theorem requeue_gave_back_of_one_host :
    let s := fromEmpty (atOnce startedRun)
    ∃ j, s.getJob { now := 2 } "0.server" = some ("0.server", j) ∧ j.state = .running ∧
      s.GaveBack (s.step { now := 2 } (.request (.rerunJob "0.server"))) "0.server" j fun _ => 1 := by
  intro s
  have started : (s.getJob { now := 2 } "0.server").any (fun found => found.1 = "0.server" ∧
      found.2.state = .running ∧ Requeue.rerun.released found.2 = ["n1"] ∧
      found.2.requestedCPUs = 1) = true := by decide +kernel
  have held : ∀ name n, s.nodeMgr.lookup name = some n →
      (0 : Int) ≤ 1 ∧ 1 ≤ n.slotsUsed ∧ n.slotsUsed ≤ maxInt := by decide +kernel
  have covers : ∀ name n, s.nodeMgr.lookup name = some n →
      n.assignedJobs.count "0.server" ≤ ["n1"].count name ∧ (["n1"].count name : Int) * 1 = 1 := by
    decide +kernel
  obtain ⟨⟨_, j⟩, found, holds⟩ := (Option.any_eq_true _ _).mp started
  obtain ⟨rfl, running, (released : Requeue.rerun.released j = _), (asked : j.requestedCPUs = 1)⟩ :=
    of_decide_eq_true holds
  refine ⟨j, found, running, ?_⟩
  refine (Server.requeue_gave_back_iff .rerun found running (fun _ => 1)
    fun name _ n => held name n).2.mpr fun name n present => ?_
  rw [released, show Requeue.rerun.credit j = 1 from asked]
  obtain ⟨listed, slots⟩ := covers name n present
  exact ⟨listed, fun _ => .inl slots⟩

/-- A job is started on two nodes, the second of which has reported that it is up. -/
def pairRun : List (Env × Step) :=
  atOnce [.manager (.createQueue "batch" []), .manager (.createNode "n1" []),
    .manager (.createNode "n2" []),
    .queueJob "alice@host" "batch" [{ name := "Resource_List", resc := "nodes", hasResc := true, value := "2" }],
    .commit "0.server"] ++
  [reports "n2" ["state=free"]] ++
  atOnce [.runJob "0.server" "n1"]

/-- Requeued in one of three ways, the job keeps its slot on the second node. -/
theorem requeue_keeps_second_host :
    let s := fromEmpty pairRun
    ∃ j, s.getJob { now := 2 } "0.server" = some ("0.server", j) ∧ j.state = .running ∧
      j.hosts = ["n1", "n2"] ∧
      ∀ path ∈ [Requeue.rerun, .nodeDown "n1", .undispatched "n1" false],
        ((path.after s { now := 2 } "0.server" "0.server" j).nodeMgr.lookup "n2").map Node.load =
          some (1, ["0.server"]) ∧
        ¬ s.GaveBack (path.after s { now := 2 } "0.server" "0.server" j) "0.server" j fun _ => 1 := by
  intro s
  have started : (s.getJob { now := 2 } "0.server").any (fun found => found.1 = "0.server" ∧
      found.2.state = .running ∧ found.2.hosts = ["n1", "n2"] ∧
      ∀ path ∈ [Requeue.rerun, .nodeDown "n1", .undispatched "n1" false],
        ((path.after s { now := 2 } "0.server" "0.server" found.2).nodeMgr.lookup "n2").map Node.load =
          some (1, ["0.server"])) = true := by decide +kernel
  obtain ⟨⟨_, j⟩, found, holds⟩ := (Option.any_eq_true _ _).mp started
  obtain ⟨rfl, running, hosts, kept⟩ := of_decide_eq_true holds
  refine ⟨j, found, running, hosts, fun path member => ⟨kept path member, fun back => ?_⟩⟩
  obtain ⟨n, present, load⟩ := Option.map_eq_some_iff.mp (kept path member)
  obtain ⟨-, listed⟩ := Prod.mk.inj load
  exact back.1 "n2" n present (by simp [listed])

/-! ### Jobs that start and end -/

theorem cleanName_of_mem_hostNames (member : name ∈ Job.hostNames host) : CleanName name := by
  obtain ⟨part, split, rfl⟩ := List.mem_map.mp member
  have plus := Text.not_mem_of_mem_split split
  refine ⟨fun sign => plus ?_, fun slash => ?_⟩
  · rw [Text.before, String.toList_ofList] at sign
    exact List.takeWhile_subset _ sign
  · rw [Text.before, String.toList_ofList] at slash
    simpa using List.mem_takeWhile_imp slash

/-- The slots that a start takes on each of the job's nodes. -/
def Job.share (j : Job) : Int := if 1 < j.nodeRequest.1 then j.nodeRequest.2 else j.requestedCPUs

theorem Job.share_isCount (j : Job) : IsCount j.share := by
  rw [Job.share]
  split
  · exact j.nodeRequest_isCount
  · exact j.requestedCPUs_isCount

/-- What ends a running job: its obituary, or a request to delete it. -/
inductive Ending where
  | obituary (remote : String) (privileged : Bool) (status : Int) (attrs : List Attr)
  | deletion

namespace Ending

def step (id : String) : Ending → Step
  | .obituary remote privileged status attrs =>
    .request (.jobObit remote privileged id status attrs)
  | .deletion => .request (.deleteJob id)

def Heard (s : Server) : Ending → Prop
  | .obituary remote privileged _ _ => s.Heard remote privileged
  | .deletion => True

end Ending

namespace Server
variable {s t u : Server} {env : Env} {id given dest : String} {names : List String} {j k : Job}

/-- Nothing in between touched the job or a node. -/
structure Undisturbed (t u : Server) (id : String) : Prop where
  nodes : ∀ name, u.nodeMgr.lookup name = t.nodeMgr.lookup name
  job : ∃ j k, t.job id = some j ∧ u.job id = some k ∧ k.state = j.state ∧
    k.execHost = j.execHost ∧ k.resourceReq = j.resourceReq

theorem ending_unheard {ending : Ending} (unheard : ¬ ending.Heard u) :
    u.step env (ending.step id) = u := by
  cases ending with
  | obituary => exact handleJobObit_unheard unheard
  | deletion => exact absurd trivial unheard

theorem lookup_ending {ending : Ending} (heard : ending.Heard u) (trimmed : Text.trimSpace id = id)
    (present : u.job id = some k) (running : k.state = .running) (placed : k.execHost ≠ "")
    (name : String) : (u.step env (ending.step id)).nodeMgr.lookup name =
      (u.nodeMgr.lookup name).map
        (·.releases id k.requestedCPUs ((Job.hostNames k.execHost).count name)) := by
  have found : u.getJob env id = some (id, k) := getJob_of_trimmed trimmed present
  have released (t : Server) (k' : Job) (held : t.job id = some k')
      (same : k'.resourceReq = k.resourceReq) : t.releaseNodeResources env k.execHost id =
        t.releaseOn (Job.hostNames k.execHost) id k.requestedCPUs := by
    simp [releaseNodeResources, getJob_of_trimmed trimmed held, Job.requestedCPUs_congr same]
  have nodes : (u.step env (ending.step id)).nodeMgr.lookup name =
      (u.releaseOn (Job.hostNames k.execHost) id k.requestedCPUs).nodeMgr.lookup name := by
    cases ending with
    | obituary remote privileged status attrs =>
      have held : (u.putJob id (Server.obituary k env status attrs)).job id =
          some (Server.obituary k env status attrs) := by rw [job_putJob, Function.update_self]
      rw [Ending.step, step, handle, handleJobObit_heard heard found, finish, if_neg placed,
        released _ _ held rfl, onStore_nodeMgr, onQueues_nodeMgr, lookup_releaseOn, lookup_releaseOn]
      rfl
    | deletion =>
      rw [Ending.step, step, handle, handleDeleteJob, found]
      simp only [delete, running, if_true, released u k present rfl]
      rfl
  rw [nodes, lookup_releaseOn]

/-- A request that starts the job: on the nodes of `runsOn`, and with its share on each. -/
structure Start (s t : Server) (id : String) (j : Job) (names : List String) : Prop where
  nonempty : names ≠ []
  nodup : names.Nodup
  present : ∀ name ∈ names, name ∈ s.nodeMgr
  nodes : t.nodeMgr = (s.assignOn names id j.share).nodeMgr
  job : ∃ k, t.job id = some k ∧ k.state = .running ∧ k.execHost = execHostOf names ∧
    k.resourceReq = j.resourceReq

theorem Start.of_start {slots port : Int} (nonempty : names ≠ []) (nodup : names.Nodup)
    (present : ∀ name ∈ names, name ∈ s.nodeMgr) (share : slots = j.share)
    (same : k.resourceReq = j.resourceReq) :
    Start s (s.start env id k names slots port) id j names where
  nonempty := nonempty
  nodup := nodup
  present := present
  nodes := by rw [← share]; rfl
  job := by
    refine ⟨(k.setExec (execHostOf names) port).setState env.now .running, ?_, rfl, rfl, same⟩
    rw [job_start, Function.update_self]

theorem start_of_running (found : s.getJob env given = some (id, j)) (waiting : j.state ≠ .running)
    (started : ((s.step env (.request (.runJob given dest))).job id).any (·.state = .running) = true) :
    Start s (s.step env (.request (.runJob given dest))) id j
      (s.runsOn env (.request (.runJob given dest))) := by
  have effect := s.step_effect env (.request (.runJob given dest))
  generalize s.step env (.request (.runJob given dest)) = t at effect started ⊢
  have known := job_of_getJob found
  cases effect with
  | started found' ready _ _ present single =>
    obtain ⟨rfl, rfl⟩ : id = _ ∧ j = _ := by simpa [found] using found'
    simp only [runsOn, found, ready, if_true, if_neg (not_lt.mpr single)]
    exact .of_start (by simp) (by simp) (by simpa using Assoc.mem_of_lookup present)
      (by rw [Job.share, if_neg (not_lt.mpr single)]) rfl
  | startedMulti found' ready _ _ present several enough =>
    obtain ⟨rfl, rfl⟩ : id = _ ∧ j = _ := by simpa [found] using found'
    simp only [runsOn, found, ready, if_true, several]
    exact .of_start (by simp [selectNodes]) (selectNodes_nodup ..)
      (selectNodes_present (Assoc.mem_of_lookup present) _ _ _) (by rw [Job.share, if_pos several]) rfl
  | failedDependency found' =>
    obtain ⟨rfl, rfl⟩ : id = _ ∧ j = _ := by simpa [found] using found'
    simp [waiting] at started
  | _ => simp [known, waiting] at started

section Restored
variable {ending : Ending} (start : Start s t id j names) (between : Undisturbed t u id)
  (trimmed : Text.trimSpace id = id)
include start between trimmed

theorem Start.lookup_ended (heard : ending.Heard u) (x : String) :
    (u.step env (ending.step id)).nodeMgr.lookup x = (s.nodeMgr.lookup x).map fun n =>
      (if x ∈ names then n.assignJob id j.share else n).releases id j.requestedCPUs
        ((Job.hostNames (execHostOf names)).count x) := by
  obtain ⟨first, job, runs, placed, request⟩ := start.job
  obtain ⟨old, k, before, here, state, host, asked⟩ := between.job
  obtain rfl : old = first := Option.some.inj (before.symm.trans job)
  have host : k.execHost = execHostOf names := host.trans placed
  rw [lookup_ending heard trimmed here (state.trans runs) (host ▸ execHostOf_ne_empty start.nonempty),
    between.nodes, start.nodes, lookup_assignOn start.nodup, Option.map_map, host,
    Job.requestedCPUs_congr (asked.trans request)]
  rfl

end Restored

/-- A start and an end leave every node as it was exactly if the end is heard and each node
of the job has a name that `exec_host` can carry and forgets the job. -/
theorem restored_iff (found : s.getJob env given = some (id, j)) (waiting : j.state ≠ .running)
    (started : ((s.step env (.request (.runJob given dest))).job id).any (·.state = .running) = true)
    (range : ∀ name n, s.nodeMgr.lookup name = some n → 0 ≤ n.slotsUsed ∧ n.slotsUsed ≤ maxInt)
    (trimmed : Text.trimSpace id = id)
    (between : Undisturbed (s.step env (.request (.runJob given dest))) u id) (env' : Env)
    (ending : Ending) :
    (∀ name, ((u.step env' (ending.step id)).nodeMgr.lookup name).map Node.occupancy =
        (s.nodeMgr.lookup name).map Node.occupancy) ↔
      ending.Heard u ∧ ∀ name ∈ s.runsOn env (.request (.runJob given dest)), CleanName name ∧
        ∀ n, s.nodeMgr.lookup name = some n → n.Restorable id j.share j.requestedCPUs := by
  have start := start_of_running found waiting started
  generalize s.step env (.request (.runJob given dest)) = t at between start
  generalize s.runsOn env (.request (.runJob given dest)) = names at start ⊢
  constructor
  · intro restored
    have heard : ending.Heard u := by
      by_contra unheard
      obtain ⟨name, member⟩ := List.exists_mem_of_ne_nil _ start.nonempty
      obtain ⟨n, present⟩ := Assoc.exists_lookup (start.present name member)
      have same := restored name
      rw [ending_unheard unheard, between.nodes, start.nodes, lookup_assignOn start.nodup] at same
      simp [present, member, Node.occupancy_assignJob_ne] at same
    have clean (name : String) (member : name ∈ names) : CleanName name := by
      by_contra unclean
      obtain ⟨n, present⟩ := Assoc.exists_lookup (start.present name member)
      have kept : (Job.hostNames (execHostOf names)).count name = 0 :=
        List.count_eq_zero_of_not_mem fun named => unclean (cleanName_of_mem_hostNames named)
      have same := restored name
      rw [start.lookup_ended between trimmed heard, kept] at same
      simp [present, member, Node.releases, Node.occupancy_assignJob_ne] at same
    refine ⟨heard, fun name member => ⟨clean name member, fun n present => ?_⟩⟩
    obtain ⟨nonneg, fits⟩ := range name n present
    have same := restored name
    rw [start.lookup_ended between trimmed heard, hostNames_execHostOf clean start.nonempty,
      List.count_eq_one_of_mem start.nodup member, present] at same
    simp only [member, if_true, Option.map_some, Option.some.injEq] at same
    exact (Node.occupancy_assign_release_iff j.share_isCount j.requestedCPUs_isCount nonneg fits).mp same
  · rintro ⟨heard, each⟩ name
    have clean : ∀ name ∈ names, CleanName name := fun name member => (each name member).1
    rw [start.lookup_ended between trimmed heard, hostNames_execHostOf clean start.nonempty]
    cases present : s.nodeMgr.lookup name with
    | none => rfl
    | some n =>
      obtain ⟨nonneg, fits⟩ := range name n present
      rw [Option.map_some, Option.map_some, Option.map_some, Option.some.injEq]
      by_cases member : name ∈ names
      · rw [if_pos member, List.count_eq_one_of_mem start.nodup member]
        exact (Node.occupancy_assign_release_iff j.share_isCount j.requestedCPUs_isCount nonneg fits).mpr
          ((each name member).2 n present)
      · rw [if_neg member, List.count_eq_zero_of_not_mem member]
        rfl

end Server

def waitingRun : List Request :=
  [.manager (.createQueue "batch" []), .manager (.createNode "n1" []),
    .queueJob "alice@host" "batch" [], .commit "0.server"]

/-- The only job of a node starts and ends. -/
theorem restored_of_only_job :
    let s := fromEmpty (atOnce waitingRun)
    let t := s.step { now := 2 } (.request (.runJob "0.server" "n1"))
    ∀ name, ((t.step { now := 3 } (.request (.jobObit "n1" true "0.server" 0 []))).nodeMgr.lookup
      name).map Node.occupancy = (s.nodeMgr.lookup name).map Node.occupancy := by
  intro s t
  have queued : (s.getJob { now := 2 } "0.server").any (fun found => found.1 = "0.server" ∧
      found.2.state ≠ .running ∧ found.2.share = 1 ∧ found.2.requestedCPUs = 1) = true := by
    decide +kernel
  have started : (t.job "0.server").any (·.state = .running) = true := by decide +kernel
  have range : ∀ name n, s.nodeMgr.lookup name = some n →
      0 ≤ n.slotsUsed ∧ n.slotsUsed ≤ maxInt := by decide +kernel
  have free : ∀ name n, s.nodeMgr.lookup name = some n →
      n.assignedJobs = [] ∧ n.state.job = false := by decide +kernel
  have names : s.runsOn { now := 2 } (.request (.runJob "0.server" "n1")) = ["n1"] := by
    decide +kernel
  obtain ⟨⟨_, j⟩, found, holds⟩ := (Option.any_eq_true _ _).mp queued
  obtain ⟨rfl, waiting, (share : j.share = 1), (asked : j.requestedCPUs = 1)⟩ :=
    of_decide_eq_true holds
  obtain ⟨k, present, -⟩ := (Option.any_eq_true _ _).mp started
  refine (Server.restored_iff found waiting started range (by decide +kernel)
    ⟨fun _ => rfl, k, k, present, present, rfl, rfl, rfl⟩ { now := 3 }
    (.obituary "n1" true 0 [])).mpr ⟨.inl rfl, ?_⟩
  rw [names, List.forall_mem_singleton]
  refine ⟨by decide, fun n present => ?_⟩
  obtain ⟨alone, shared⟩ := free "n1" n present
  exact ⟨.inl (share.trans asked.symm), by simp [alone], by simp [alone, shared]⟩

/-- A node of two processors runs one job. -/
def halfFullRun : List Request :=
  [.manager (.createQueue "batch" []), .manager (.createNode "n1" [{ name := "np", value := "2" }]),
    .queueJob "alice@host" "batch" [], .commit "0.server", .queueJob "bob@host" "batch" [],
    .commit "1.server", .runJob "0.server" "n1"]

/-- The second job fills the node and ends, and the node stays `job-exclusive`. -/
theorem ended_job_leaves_exclusive :
    let s := fromEmpty (atOnce halfFullRun)
    let t := s.step { now := 2 } (.request (.runJob "1.server" "n1"))
    (t.job "1.server").any (·.state = .running) = true ∧
      (s.nodeMgr.lookup "n1").map Node.occupancy = some (1, ["0.server"], false) ∧
      ∀ ending ∈ [Request.jobObit "n1" true "1.server" 0 [], .deleteJob "1.server"],
        ((t.step { now := 3 } (.request ending)).nodeMgr.lookup "n1").map Node.occupancy =
          some (1, ["0.server"], true) := by
  decide +kernel

end OpenTorque.Pbs
