import OpenTorque.Core.Mirror
import OpenTorque.Server.JobIds

/-! Where a job runs: the nodes that running jobs name in their `exec_host` against the
jobs that nodes list. The two are written by different handlers, so their agreement is an
invariant of the whole server. -/
namespace OpenTorque.Pbs
open Transition

/-- The nodes a job occupies: those a running job names. -/
def Job.hosts (j : Job) : List String :=
  if j.state = .running ∧ j.execHost ≠ "" then Job.hostNames j.execHost else []

namespace Server

def hostsOf (s : Server) (id : String) : List String := (s.jobMgr.jobs.lookup id).elim [] Job.hosts

def assigned (s : Server) (name : String) : List String :=
  (s.nodeMgr.lookup name).elim [] (·.assignedJobs)

/-- Every node lists exactly the running jobs that name it, each of them once. -/
def AssignmentsAgree (s : Server) : Prop :=
  ∀ name ∈ s.nodeMgr, (s.assigned name).Nodup ∧
    ∀ id, id ∈ s.assigned name ↔ name ∈ s.hostsOf id

end Server

namespace Job
variable {j k : Job} {id : String} {state : JobState} {attrs : List Attr}

theorem hosts_of_state (other : j.state ≠ .running) : j.hosts = [] := by simp [hosts, other]

theorem hosts_congr (state : k.state = j.state) (host : k.execHost = j.execHost) :
    k.hosts = j.hosts := by simp [hosts, state, host]

theorem hosts_setState (other : state ≠ .running) : (j.setState now state).hosts = [] :=
  hosts_of_state other

theorem committedState_ne_running (j : Job) (now : Time) : j.committedState now ≠ .running := by
  unfold committedState
  split_ifs <;> simp

/-- An attribute that neither moves a job nor stops it. -/
def Quiet (now : Time) (a : Attr) : Prop :=
  a.name ≠ "exec_host" ∧ (a.name = "Hold_Types" → ¬ holds a.value) ∧
    (a.name = "Execution_Time" → ∀ ts ∈ parseInt a.value, Time.ofUnix ts ≤ now)

instance (now : Time) (a : Attr) : Decidable (Quiet now a) := inferInstanceAs (Decidable (_ ∧ _ ∧ _))

theorem applyAttr_quiet (quiet : Quiet now a) :
    (applyAttr now j a).state = j.state ∧ (applyAttr now j a).execHost = j.execHost := by
  obtain ⟨notHost, notHeld, past⟩ := quiet
  unfold applyAttr
  split
  · exact ⟨rfl, rfl⟩
  · unfold applySpecial
    split
    case h_4 name =>
      simp [setHoldTypes, notHeld name]
    case h_5 name =>
      unfold setExecutionTime
      split
      · exact ⟨rfl, rfl⟩
      case h_2 ts read => simp [not_lt.mpr (past name ts read)]
    case h_9 name => exact absurd name notHost
    case h_12 => split <;> exact ⟨rfl, rfl⟩
    case h_13 => split <;> exact ⟨rfl, rfl⟩
    all_goals exact ⟨rfl, rfl⟩

theorem applyAttr_state {state : JobState} (held : state ≠ .held) (waiting : state ≠ .waiting)
    (after : (applyAttr now j a).state = state) : j.state = state := by
  unfold applyAttr at after
  split at after
  · exact after
  · unfold applySpecial at after
    split at after
    case h_4 =>
      unfold setHoldTypes at after
      split at after
      · exact absurd after.symm held
      · exact after
    case h_5 =>
      unfold setExecutionTime at after
      split at after
      · exact after
      · simp only at after
        split at after
        · exact absurd after.symm waiting
        · exact after
    case h_12 => split at after <;> exact after
    case h_13 => split at after <;> exact after
    all_goals exact after

theorem deriveDefaults_hosts : (j.deriveDefaults id).hosts = j.hosts := by
  simp [deriveDefaults, hosts]

theorem applyJobAttrs_quiet (quiet : ∀ a ∈ attrs, Quiet now a) :
    (j.applyJobAttrs id now attrs).hosts = j.hosts := by
  rw [applyJobAttrs, deriveDefaults_hosts]
  refine List.foldlRecOn (motive := fun k : Job => k.hosts = j.hosts) attrs _ rfl
    fun k same a member => ?_
  obtain ⟨state, host⟩ := applyAttr_quiet (j := k) (quiet a member)
  exact (hosts_congr state host).trans same

theorem applyJobAttrs_idle (idle : j.state ≠ .running) :
    (j.applyJobAttrs id now attrs).hosts = [] := by
  rw [applyJobAttrs, deriveDefaults_hosts]
  refine hosts_of_state (List.foldlRecOn (motive := fun k : Job => k.state ≠ .running) attrs _ idle
    fun k idle a _ => fun started => idle (applyAttr_state (by decide) (by decide) started))

end Job

/-- A node name that an `exec_host` can carry. -/
def CleanName (name : String) : Prop := '+' ∉ name.toList ∧ '/' ∉ name.toList

instance (name : String) : Decidable (CleanName name) := inferInstanceAs (Decidable (_ ∧ _))

theorem hostNames_execHostOf (clean : ∀ name ∈ names, CleanName name) (some : names ≠ []) :
    Job.hostNames (Server.execHostOf names) = names := by
  have parts : Text.split '+' (Server.execHostOf names) = names.map (· ++ "/0") := by
    refine Text.split_join rfl ?_ (by simpa using some)
    simp only [List.mem_map]
    rintro _ ⟨name, member, rfl⟩
    simpa using (clean name member).1
  rw [Job.hostNames, parts, List.map_map]
  conv_rhs => rw [← List.map_id names]
  refine List.map_congr_left fun name member => ?_
  have shape : (name ++ "/0").toList = name.toList ++ '/' :: ['0'] := by simp
  exact Text.before_append (clean name member).2 shape

theorem execHostOf_ne_empty (some : names ≠ []) : Server.execHostOf names ≠ "" := by
  obtain ⟨name, rest, rfl⟩ := List.exists_cons_of_ne_nil some
  intro empty
  have chars := congrArg String.toList empty
  cases rest <;> simp [Server.execHostOf, Text.join, String.toList_intercalate] at chars

theorem hostNames_single (single : Job.hostNames host = [name]) : Text.before '/' host = name := by
  obtain ⟨part, whole, rfl⟩ : ∃ part, Text.split '+' host = [part] ∧ Text.before '/' part = name := by
    simpa [Job.hostNames, List.map_eq_singleton_iff] using single
  rw [Text.split_eq_singleton whole]

namespace Server
variable {s t u : Server} {id key name given : String} {names : List String} {j : Job} {env : Env}

@[simp] theorem hostsOf_onNodes : (s.onNodes change).hostsOf = s.hostsOf := rfl

theorem hostsOf_of_lookup (found : s.jobMgr.jobs.lookup id = some j) : s.hostsOf id = j.hosts := by
  simp [hostsOf, found]

theorem hostsOf_of_getJob (found : s.getJob env given = some (key, j)) : s.hostsOf key = j.hosts :=
  hostsOf_of_lookup (s.jobMgr.getJob_lookup _ _ found)

theorem hostsOf_of_not_mem (missing : id ∉ s.jobMgr.jobs) : s.hostsOf id = [] := by
  have none := mt AList.lookup_isSome.mp missing
  simp only [Bool.not_eq_true, Option.isSome_eq_false_iff, Option.isNone_iff_eq_none] at none
  simp [hostsOf, none]

theorem mem_of_mem_hostsOf (placed : name ∈ s.hostsOf id) : id ∈ s.jobMgr.jobs := by
  by_contra missing
  simp [hostsOf_of_not_mem missing] at placed

theorem hostsOf_putJob : (s.putJob id j).hostsOf = Function.update s.hostsOf id j.hosts := by
  funext x
  by_cases same : x = id
  · subst same; simp [hostsOf]
  · simp [hostsOf, same]

theorem hostsOf_addJob :
    (s.onJobs (·.addJob id j)).hostsOf = Function.update s.hostsOf id j.hosts := hostsOf_putJob

theorem hostsOf_updateJobState (other : state ≠ .running) :
    (s.updateJobState env id state).hostsOf = Function.update s.hostsOf id [] := by
  funext x
  by_cases same : x = id
  · subst same
    cases found : s.jobMgr.jobs.lookup x <;>
      simp [hostsOf, JobManager.updateJobState_lookup, found, Job.hosts_setState other]
  · simp [hostsOf, JobManager.updateJobState_lookup, same]

theorem hostsOf_removeJob : (s.removeJob id).hostsOf = Function.update s.hostsOf id [] := by
  funext x
  by_cases same : x = id
  · subst same; simp [hostsOf, JobManager.removeJob_lookup]
  · simp [hostsOf, JobManager.removeJob_lookup, same]

theorem hostsOf_putObject (present : id ∈ s.jobMgr.jobs) :
    (s.onJobs (·.putObject id j)).hostsOf = Function.update s.hostsOf id j.hosts := by
  have same : s.onJobs (·.putObject id j) = s.putJob id j := by
    simp [onJobs, JobManager.putObject, present]
  rw [same, hostsOf_putJob]

theorem hostsOf_putObject_removed (missing : id ∉ s.jobMgr.jobs) :
    (s.onJobs (·.putObject id j)).hostsOf = s.hostsOf := by
  funext x
  simp [hostsOf, JobManager.putObject, missing]

theorem mem_onNode : name ∈ (s.onNode key change).nodeMgr ↔ name ∈ s.nodeMgr := by
  simp only [onNodes_nodeMgr, NodeManager.onNode]
  split
  · rfl
  case h_2 found =>
    rw [AList.mem_insert]
    exact or_iff_right_of_imp fun same => same ▸ Assoc.mem_of_lookup found

theorem assigned_onNode (x : String) : (s.onNode name change).assigned x =
    if x = name then ((s.nodeMgr.lookup name).map change).elim [] (·.assignedJobs)
    else s.assigned x := by
  rw [assigned, onNodes_nodeMgr, NodeManager.lookup_onNode]
  by_cases same : x = name
  · subst same
    simp
  · simp [same, assigned]

theorem assigned_onNode_kept (kept : ∀ n, (change n).assignedJobs = n.assignedJobs) :
    (s.onNode name change).assigned = s.assigned := by
  funext x
  rw [assigned_onNode]
  split
  case isTrue same =>
    subst same
    cases found : s.nodeMgr.lookup x <;> simp [assigned, found, kept]
  case isFalse => rfl

theorem assigned_release : (s.onNode name (·.releaseJob id slots)).assigned =
    fun x => if x ∈ [name] then (s.assigned x).erase id else s.assigned x := by
  funext x
  rw [assigned_onNode]
  by_cases same : x = name
  · subst same
    cases found : s.nodeMgr.lookup x <;> simp [assigned, found]
  · simp [same]

theorem assigned_releaseOn (nodup : ∀ x, (s.assigned x).Nodup) :
    (s.releaseOn names id slots).assigned =
      fun x => if x ∈ names then (s.assigned x).erase id else s.assigned x := by
  induction names generalizing s with
  | nil => simp [releaseOn]
  | cons name names ih =>
    have first : (s.onNode name (·.releaseJob id slots)).assigned = _ := assigned_release
    have rest := ih (s := s.onNode name (·.releaseJob id slots)) fun x => by
      rw [first]
      simp only
      split
      · exact (nodup x).erase id
      · exact nodup x
    refine rest.trans (funext fun x => ?_)
    have gone : id ∉ (s.assigned x).erase id := (nodup x).not_mem_erase
    simp only [first, List.mem_cons, List.not_mem_nil, or_false]
    by_cases here : x = name
    · subst here
      by_cases later : x ∈ names <;> simp [later, gone]
    · by_cases later : x ∈ names <;> simp [here, later]

theorem assigned_assignOn (present : ∀ x ∈ names, x ∈ s.nodeMgr) (nodup : names.Nodup) :
    (s.assignOn names id slots).assigned =
      fun x => if x ∈ names then s.assigned x ++ [id] else s.assigned x := by
  induction names generalizing s with
  | nil => simp [assignOn]
  | cons name names ih =>
    obtain ⟨fresh, nodup⟩ := List.nodup_cons.mp nodup
    obtain ⟨n, found⟩ := Assoc.exists_lookup (present name (by simp))
    have rest := ih (s := s.onNode name (·.assignJob id slots))
      (fun x member => mem_onNode.mpr (present x (by simp [member]))) nodup
    refine rest.trans (funext fun x => ?_)
    simp only [assigned_onNode, List.mem_cons]
    by_cases here : x = name
    · subst here
      simp [fresh, found, assigned]
    · simp [here]

/-- The hosts of every job, the nodes and the server's name are the same. -/
structure SameHosts (s t : Server) : Prop where
  hosts : t.hostsOf = s.hostsOf
  nodes : t.nodeMgr = s.nodeMgr
  name : t.cfg.serverName = s.cfg.serverName

namespace SameHosts

theorem refl (s : Server) : s.SameHosts s := ⟨rfl, rfl, rfl⟩

section
variable (same : s.SameHosts t)
include same

theorem update (kept : s.hostsOf id = names) :
    Function.update t.hostsOf id names = s.hostsOf := by
  rw [same.hosts, ← kept, Function.update_eq_self]

theorem putJob (kept : s.hostsOf id = j.hosts) :
    s.SameHosts (t.putJob id j) :=
  ⟨hostsOf_putJob.trans (same.update kept), same.nodes, same.name⟩

theorem addJob (kept : s.hostsOf id = j.hosts) :
    s.SameHosts (t.onJobs (·.addJob id j)) :=
  ⟨hostsOf_addJob.trans (same.update kept), same.nodes, same.name⟩

theorem updateJobState (idle : s.hostsOf id = [])
    (other : state ≠ .running) : s.SameHosts (t.updateJobState env id state) :=
  ⟨(hostsOf_updateJobState other).trans (same.update idle), same.nodes, same.name⟩

theorem removeJob (idle : s.hostsOf id = []) :
    s.SameHosts (t.removeJob id) :=
  ⟨hostsOf_removeJob.trans (same.update idle), same.nodes, same.name⟩

theorem onQueues : s.SameHosts (t.onQueues change) := { same with }

theorem onStore : s.SameHosts (t.onStore change) := { same with }

/-- Changes to jobs that occupy no node. -/
theorem path (path : Path env (fun x => s.hostsOf x = []) False t u) :
    s.SameHosts u := by
  induction path with
  | refl => exact same
  | tail _ edit same =>
    cases edit with
    | put idle _ stopped =>
      refine same.putJob (Eq.trans idle ?_)
      rcases stopped with ⟨⟨⟩⟩ | stopped | ⟨k, found, state, host⟩
      · rw [Job.hosts_of_state stopped]
      · rw [Job.hosts_congr state host, ← hostsOf_of_lookup found, same.hosts, idle]
    | state idle stopped => exact same.updateJobState idle stopped
    | add idle =>
      unfold addTask
      exact (same.addJob idle).onStore
    | remove idle => exact same.removeJob idle
    | unscript | save => exact same.onStore
    | count => exact same.onQueues
    | recount _ open_ | forget open_ | release open_ | down open_ => exact open_.elim

end

end SameHosts

/-- The ids of the tasks a commit of the job would create. -/
def tasksOf (s : Server) (id : String) (j : Job) : List String :=
  match parseArraySpec j.jobArrayReq with
  | .indices values => values.map (arrayTaskID id s.cfg.serverName)
  | .invalid _ | .endless => []

/-- Neither the job nor a task that its commit would create occupies a node. -/
def CommitIdle (s : Server) (given id : String) (j : Job) : Prop :=
  ∀ x ∈ id :: given :: s.tasksOf id j, s.hostsOf x = []

namespace SameHosts

theorem commit (same : s.SameHosts t) (idle : s.CommitIdle given id j) :
    s.SameHosts (t.commit env given id j reply).server := by
  refine same.path (.commit (idle id (by simp)) (idle given (by simp)) fun values spec i member => ?_)
  refine idle _ (List.mem_cons_of_mem _ (List.mem_cons_of_mem _ ?_))
  rw [same.name, tasksOf, spec]
  exact List.mem_map_of_mem member

theorem promote (same : s.SameHosts t) : s.SameHosts (Server.promote env t id) := by
  unfold Server.promote
  split
  · exact same
  case h_2 j found =>
    split
    case isTrue due =>
      have idle : s.hostsOf id = [] := by
        rw [← same.hosts, hostsOf_of_lookup found, Job.hosts_of_state (by simp [due.1])]
      exact same.updateJobState idle (by simp)
    case isFalse => exact same

theorem purge (same : s.SameHosts t) : s.SameHosts (Server.purge env t id) := by
  unfold Server.purge
  split
  · exact same
  case h_2 j found =>
    split
    case isTrue due =>
      have idle : s.hostsOf id = [] := by
        rw [← same.hosts, hostsOf_of_lookup found, Job.hosts_of_state (by simp [due.1])]
      exact same.onQueues.onStore.removeJob idle
    case isFalse => exact same

end SameHosts

theorem hostsOf_releaseOn : (s.releaseOn names id slots).hostsOf = s.hostsOf :=
  List.foldlRecOn (motive := fun t : Server => t.hostsOf = s.hostsOf) names _ rfl
    fun _ same _ _ => same

theorem hostsOf_assignOn : (s.assignOn names id slots).hostsOf = s.hostsOf :=
  List.foldlRecOn (motive := fun t : Server => t.hostsOf = s.hostsOf) names _ rfl
    fun _ same _ _ => same

theorem mem_releaseOn : name ∈ (s.releaseOn names id slots).nodeMgr ↔ name ∈ s.nodeMgr :=
  List.foldlRecOn (motive := fun t : Server => name ∈ t.nodeMgr ↔ name ∈ s.nodeMgr) names _ Iff.rfl
    fun _ same _ _ => mem_onNode.trans same

theorem mem_assignOn : name ∈ (s.assignOn names id slots).nodeMgr ↔ name ∈ s.nodeMgr :=
  List.foldlRecOn (motive := fun t : Server => name ∈ t.nodeMgr ↔ name ∈ s.nodeMgr) names _ Iff.rfl
    fun _ same _ _ => mem_onNode.trans same

theorem hostsOf_requeue : (s.requeue env id j).hostsOf = Function.update s.hostsOf id [] :=
  hostsOf_putJob.trans (by rw [Job.hosts_setState (by simp)])

/-- The two records agree, and every node's name can stand in an `exec_host`. -/
structure Consistent (s : Server) : Prop where
  mirror : Mirror s.hostsOf s.assigned
  clean : ∀ name ∈ s.nodeMgr, CleanName name

namespace Consistent

section
variable (consistent : s.Consistent)
include consistent

theorem agree : s.AssignmentsAgree :=
  fun name _ => ⟨consistent.mirror.nodup name, fun id => consistent.mirror.both id name⟩

theorem same (same : s.SameHosts t) : t.Consistent where
  mirror := by
    have lists : t.assigned = s.assigned := by
      funext x
      simp only [assigned, same.nodes]
    rw [same.hosts, lists]
    exact consistent.mirror
  clean := same.nodes ▸ consistent.clean

/-- A job has left its nodes: it was taken off every list in `names`. -/
theorem release (hosts : t.hostsOf = Function.update s.hostsOf id [])
    (lists : t.assigned = fun x => if x ∈ names then (s.assigned x).erase id else s.assigned x)
    (nodes : ∀ x, x ∈ t.nodeMgr → x ∈ s.nodeMgr) (covers : ∀ x ∈ s.hostsOf id, x ∈ names) :
    t.Consistent where
  mirror := by
    rw [hosts, lists]
    exact consistent.mirror.release names covers
  clean name member := consistent.clean name (nodes name member)

theorem assigned_releaseOn_idle (idle : s.hostsOf id = []) :
    (s.releaseOn names id slots).assigned = s.assigned := by
  rw [assigned_releaseOn consistent.mirror.nodup]
  funext x
  rw [consistent.mirror.erase_idle idle, ite_self]

theorem releaseOn (idle : s.hostsOf id = []) :
    (s.releaseOn names id slots).Consistent where
  mirror := by
    rw [hostsOf_releaseOn, consistent.assigned_releaseOn_idle idle]
    exact consistent.mirror
  clean name member := consistent.clean name (mem_releaseOn.mp member)

theorem onNode_kept (kept : ∀ n, (change n).assignedJobs = n.assignedJobs) : (s.onNode name change).Consistent where
  mirror := by
    rw [assigned_onNode_kept kept]
    exact consistent.mirror
  clean name member := consistent.clean name (mem_onNode.mp member)

theorem addNode (clean : CleanName name) :
    (s.onNodes (·.addNode name np)).Consistent where
  mirror := by
    have lists : (s.onNodes (·.addNode name np)).assigned = s.assigned := by
      funext x
      simp only [assigned, onNodes_nodeMgr, NodeManager.addNode]
      split
      · rfl
      case isFalse missing =>
        by_cases same : x = name
        · subst same
          have none := mt AList.lookup_isSome.mp missing
          simp only [Bool.not_eq_true, Option.isSome_eq_false_iff, Option.isNone_iff_eq_none] at none
          simp [none, Node.newNode]
        · simp [same]
    rw [lists]
    exact consistent.mirror
  clean x member := by
    simp only [onNodes_nodeMgr, NodeManager.addNode] at member
    split at member
    · exact consistent.clean x member
    · rcases (AList.mem_insert _).mp member with same | old
      · exact same ▸ clean
      · exact consistent.clean x old

/-- A job that occupies no node starts on nodes of the manager. -/
theorem start (idle : s.hostsOf id = [])
    (present : ∀ name ∈ names, name ∈ s.nodeMgr) (nodup : names.Nodup) (some : names ≠ []) :
    (s.start env id j names slots port).Consistent where
  mirror := by
    have placed : ((j.setExec (execHostOf names) port).setState env.now .running).hosts = names := by
      have clean := fun name member => consistent.clean name (present name member)
      simp [Job.hosts, execHostOf_ne_empty some, hostNames_execHostOf clean some]
    have hosts : (s.start env id j names slots port).hostsOf =
        Function.update s.hostsOf id names := by
      refine Eq.trans hostsOf_putJob ?_
      rw [placed, hostsOf_assignOn]
    have lists : (s.start env id j names slots port).assigned =
        fun x => if x ∈ names then s.assigned x ++ [id] else s.assigned x :=
      assigned_assignOn present nodup
    rw [hosts, lists]
    exact consistent.mirror.assign names idle
  clean name member := consistent.clean name (mem_assignOn.mp member)

theorem requeue (covers : ∀ x ∈ s.hostsOf id, x ∈ [name]) :
    ((s.onNode name (·.releaseJob id slots)).requeue env id j).Consistent :=
  consistent.release hostsOf_requeue assigned_release (fun _ => mem_onNode.mp) covers

theorem requeue_idle (idle : s.hostsOf id = []) :
    (s.requeue env id j).Consistent :=
  consistent.same ⟨by rw [hostsOf_requeue, ← idle, Function.update_eq_self], rfl, rfl⟩

end

theorem hosts_eq (occupied : j.hosts ≠ []) :
    j.state = .running ∧ j.hosts = Job.hostNames j.execHost := by
  unfold Job.hosts at occupied ⊢
  split
  case isTrue placed => exact ⟨placed.1, rfl⟩
  case isFalse other => simp [other] at occupied

section
variable (consistent : s.Consistent)
include consistent

theorem delete (found : s.getJob env given = some (key, j))
    (named : given = key ∨ s.hostsOf given = []) : (s.delete env given j).Consistent := by
  by_cases idle : s.hostsOf given = []
  · have released : (if j.state = .running then s.releaseNodeResources env j.execHost given
        else s).Consistent ∧ (if j.state = .running then s.releaseNodeResources env j.execHost given
        else s).hostsOf given = [] := by
      split
      · exact ⟨consistent.releaseOn idle, by rw [releaseNodeResources, hostsOf_releaseOn, idle]⟩
      · exact ⟨consistent, idle⟩
    exact released.1.same (((SameHosts.refl _).onQueues.updateJobState released.2
      (by simp)).onStore.removeJob released.2)
  · obtain rfl : given = key := named.resolve_right idle
    have hosts := hostsOf_of_getJob found
    obtain ⟨running, placed⟩ := hosts_eq (hosts ▸ idle)
    have lists : (s.releaseNodeResources env j.execHost given).assigned = _ :=
      assigned_releaseOn consistent.mirror.nodup
    have kept : (s.releaseNodeResources env j.execHost given).hostsOf = s.hostsOf :=
      hostsOf_releaseOn
    have nodes : ∀ x, x ∈ (s.releaseNodeResources env j.execHost given).nodeMgr → x ∈ s.nodeMgr :=
      fun _ => mem_releaseOn.mp
    simp only [Server.delete, running, if_true]
    generalize s.releaseNodeResources env j.execHost given = released at lists kept nodes
    refine consistent.release ?_ lists nodes (fun x => by rw [hosts, placed]; exact id)
    calc _ = Function.update (released.updateJobState env given .complete).hostsOf given [] :=
          hostsOf_removeJob
      _ = Function.update s.hostsOf given [] := by
          rw [hostsOf_updateJobState (by simp), Function.update_idem, kept]

/-- The obituary of a job under its own id, or of a job that occupies no node. -/
theorem finish (found : s.getJob env given = some (key, j))
    (stopped : done.hosts = [])
    (named : given = key ∨ s.hostsOf key = [] ∧ s.hostsOf given = []) :
    (s.finish env given key j done).Consistent := by
  have ended : (s.putJob key done).hostsOf = Function.update s.hostsOf key [] := by
    rw [hostsOf_putJob, stopped]
  by_cases idle : s.hostsOf key = [] ∧ s.hostsOf given = []
  · have put := consistent.same ((SameHosts.refl s).putJob (idle.1.trans stopped.symm))
    have away : (s.putJob key done).hostsOf given = [] := by
      rw [ended]
      by_cases same : given = key <;> simp [same, idle]
    simp only [Server.finish]
    split
    · exact put.same (SameHosts.refl _).onQueues.onStore
    · exact (put.releaseOn away).same (SameHosts.refl _).onQueues.onStore
  · obtain rfl : given = key := named.resolve_right idle
    have hosts := hostsOf_of_getJob found
    simp only [and_self] at idle
    obtain ⟨running, placed⟩ := hosts_eq (hosts ▸ idle)
    have host : j.execHost ≠ "" := by
      intro empty
      simp [hosts, Job.hosts, empty] at idle
    simp only [Server.finish, host, if_false]
    exact consistent.release (hostsOf_releaseOn.trans ended)
      (assigned_releaseOn consistent.mirror.nodup) (fun _ => mem_releaseOn.mp)
      (fun x => by rw [hosts, placed]; exact fun member => member)

/-- A dispatch that failed takes its job back from the one node it was on. -/
theorem undoJobDispatch (placed : s.hostsOf d.job = [] ∨ s.hostsOf d.job = [d.node] ∧ d.detached = false) :
    (s.undoJobDispatch env d).Consistent := by
  unfold Server.undoJobDispatch
  split
  · exact consistent
  case h_2 j _ =>
    have stopped : ((j.setState env.now .queued).setExec "" 0).hosts = [] :=
      Job.hosts_of_state (by simp)
    have hosts : (s.onJobs (·.putObject d.job ((j.setState env.now .queued).setExec "" 0))).hostsOf =
        Function.update s.hostsOf d.job [] := by
      by_cases present : d.job ∈ s.jobMgr.jobs
      · rw [hostsOf_putObject present, stopped]
      · rw [hostsOf_putObject_removed present, ← hostsOf_of_not_mem present,
          Function.update_eq_self]
    simp only
    generalize reverts : s.onJobs (·.putObject d.job ((j.setState env.now .queued).setExec "" 0)) =
      reverted at hosts
    have nodes : reverted.nodeMgr = s.nodeMgr := by rw [← reverts]; rfl
    have name : reverted.cfg.serverName = s.cfg.serverName := by rw [← reverts]; rfl
    cases detached : d.detached with
    | true =>
      have idle : s.hostsOf d.job = [] := placed.resolve_right fun only => by simp_all
      have same : reverted.hostsOf = s.hostsOf := by
        rw [hosts, ← idle, Function.update_eq_self]
      exact consistent.same (SameHosts.onQueues ⟨same, nodes, name⟩)
    | false =>
      have lists : reverted.assigned = s.assigned := funext fun x => by simp only [assigned, nodes]
      refine consistent.release hosts (assigned_release.trans (by rw [lists]))
        (fun x member => nodes ▸ mem_onNode.mp member) fun x member => ?_
      rcases placed with idle | ⟨only, -⟩
      · simp [idle] at member
      · rwa [only] at member

theorem reconcile : (Server.reconcile env running s id).Consistent := by
  unfold Server.reconcile
  split
  · exact consistent
  case h_2 j found =>
    simp only
    split
    · exact consistent
    · split
      · exact consistent
      · split
        · exact consistent
        · refine consistent.release ?_ (assigned_releaseOn consistent.mirror.nodup)
            (fun _ => mem_releaseOn.mp) fun x member => ?_
          · exact hostsOf_requeue.trans (congrArg (Function.update · id []) hostsOf_releaseOn)
          · have hosts := hostsOf_of_lookup found
            rw [hosts] at member
            exact (hosts_eq (List.ne_nil_of_mem member)).2 ▸ member

theorem handleISMessage (clean : CleanName msg.hostname) :
    (s.handleISMessage env msg).Consistent := by
  have heard : ∀ n : Node, (n.receive env.now msg).assignedJobs = n.assignedJobs := by simp
  simp only [Server.handleISMessage, tryAutoRegisterNode]
  split
  · exact consistent.onNode_kept heard
  · split
    · have registered (np : Int) : ((s.onNodes (·.addNode msg.hostname np)).onNode msg.hostname
          ({ · with dynamic := true })).Consistent :=
        (consistent.addNode clean).onNode_kept fun _ => rfl
      exact ((registered _).same (SameHosts.refl _).onStore).onNode_kept heard
    · exact consistent.onNode_kept heard

theorem manage (done : s.manage env command = some s')
    (clean : ∀ name attrs, command = .createNode name attrs → CleanName name)
    (kept : ∀ name, command ≠ .deleteNode name) : s'.Consistent := by
  have saveQueue : ∀ (t : Server) (name : String), s.SameHosts t → s.SameHosts (t.saveQueue env name) := by
    intro t name same
    unfold Server.saveQueue
    split
    · exact same
    · exact same.onStore
  cases command with
  | createQueue | setQueue | unsetQueue =>
    simp only [Server.manage, Option.ite_none_left_eq_some, Option.ite_none_right_eq_some] at done
    obtain ⟨-, ⟨⟩⟩ := done
    exact consistent.same (saveQueue _ _ (SameHosts.refl s).onQueues)
  | deleteQueue =>
    simp only [Server.manage, Option.ite_none_right_eq_some] at done
    obtain ⟨-, ⟨⟩⟩ := done
    exact consistent.same (SameHosts.refl s).onQueues.onStore
  | createNode name attrs =>
    cases done
    have created : ((s.onNodes (·.addNode name (requestedProcs attrs))).onNode name
        (·.applyNodeAttrs attrs)).Consistent :=
      (consistent.addNode (clean name attrs rfl)).onNode_kept fun _ => by simp
    exact created.same (SameHosts.refl _).onStore
  | deleteNode name => exact absurd rfl (kept name)
  | setNode name attrs =>
    simp only [Server.manage, Option.ite_none_right_eq_some] at done
    obtain ⟨-, ⟨⟩⟩ := done
    have set : (s.onNode name (·.applyNodeAttrs attrs)).Consistent :=
      consistent.onNode_kept fun _ => by simp
    exact set.same (SameHosts.refl _).onStore
  | setServer | unsetServer =>
    cases done
    exact ⟨consistent.mirror, consistent.clean⟩
  | unsupported => cases done

end

end Consistent

/-- What a round of `checkNodes` keeps: jobs only leave their nodes, and no other node
becomes stale. -/
structure Drained (s : Server) (env : Env) (t : Server) : Prop where
  consistent : t.Consistent
  fewer : ∀ id, t.hostsOf id = s.hostsOf id ∨ t.hostsOf id = []
  known : ∀ id, id ∈ s.jobMgr.jobs → id ∈ t.jobMgr.jobs
  fresh : ∀ name, t.stale env name → s.stale env name

namespace Drained

theorem refl (consistent : s.Consistent) (env : Env) : s.Drained env s :=
  ⟨consistent, fun _ => .inl rfl, fun _ => id, fun _ => id⟩

theorem stale_onNode (old : (s.onNode key change).stale env name)
    (kept : ∀ n : Node, (change n).lastUpdate = n.lastUpdate ∧
      (n.state.down → (change n).state.down)) : s.stale env name := by
  unfold Server.stale at *
  simp only [onNodes_nodeMgr, NodeManager.onNode] at old
  cases found : s.nodeMgr.lookup key with
  | none => simpa [found] using old
  | some n =>
    simp only [found, Assoc.lookup_insert_ite] at old
    by_cases same : name = key
    · subst same
      simp only [if_true, Option.any_some, (kept n).1, Bool.and_eq_true, Bool.not_eq_true'] at old
      have up : n.state.down = false := by
        cases down : n.state.down with
        | false => rfl
        | true => simp [(kept n).2 down] at old
      simp only [found, Option.any_some, up, Bool.not_false, Bool.true_and, Bool.and_eq_true,
        Bool.not_eq_true']
      exact ⟨old.1.2, old.2⟩
    · simpa [same] using old

theorem markDown (drained : s.Drained env t) : s.Drained env (t.onNode name (·.markDown)) where
  consistent := drained.consistent.onNode_kept fun _ => rfl
  fewer := drained.fewer
  known := drained.known
  fresh x old := drained.fresh x (stale_onNode old fun _ => ⟨rfl, fun _ => rfl⟩)

theorem requeueFrom (drained : s.Drained env t) (alone : s.hostsOf id = [name])
    (trimmed : Text.trimSpace id = id) : s.Drained env (Server.requeueFrom env name t id) := by
  have placed : name ∈ s.hostsOf id := by simp [alone]
  have present : id ∈ t.jobMgr.jobs := drained.known id (mem_of_mem_hostsOf placed)
  unfold Server.requeueFrom
  split
  · exact drained
  case h_2 key j found =>
    obtain rfl : id = key := (t.jobMgr.getJob_key _ _ _ trimmed present found).symm
    split
    case isTrue running =>
      refine ⟨drained.consistent.requeue ?_, ?_, ?_, ?_⟩
      · rcases drained.fewer id with same | none
        · rw [same, alone]; simp
        · simp [none]
      · intro x
        rw [hostsOf_requeue]
        by_cases same : x = id
        · subst same; simp
        · simpa [same] using drained.fewer x
      · intro x member
        exact (AList.mem_insert _).mpr (.inr (drained.known x member))
      · intro x old
        exact drained.fresh x (stale_onNode old fun _ => ⟨rfl, fun down => down⟩)
    case isFalse => exact drained

/-- A node that is declared down gives up only jobs that have no other host. -/
theorem checkNode (drained : s.Drained env t) (agree : s.Consistent)
    (single : ∀ name, s.stale env name → ∀ id ∈ s.assigned name,
      s.hostsOf id = [name] ∧ Text.trimSpace id = id) :
    s.Drained env (Server.checkNode env t name) := by
  unfold Server.checkNode
  split
  · exact drained
  case h_2 n found =>
    split
    case isFalse => exact drained
    case isTrue old =>
      have marked : s.Drained env (t.onNode name (·.markDown)) := drained.markDown
      have stale : s.stale env name := drained.fresh name (by simpa [Server.stale, found] using old)
      have listed : (t.onNode name (·.markDown)).assigned = t.assigned :=
        assigned_onNode_kept fun _ => rfl
      unfold requeueNodeJobs
      split
      · exact marked
      · split
        · exact marked
        case h_2 down present =>
          refine List.foldlRecOn down.assignedJobs _ marked fun u kept id member => ?_
          have placed : id ∈ t.assigned name := by
            rw [← listed, assigned, present]
            exact member
          have before : id ∈ s.assigned name := by
            rw [agree.mirror.both]
            rw [drained.consistent.mirror.both] at placed
            rcases drained.fewer id with same | none
            · rwa [← same]
            · simp [none] at placed
          obtain ⟨alone, trimmed⟩ := single name stale id before
          exact kept.requeueFrom alone trimmed

end Drained

theorem submittedJob_hosts (s : Server) (user queue : String) (attrs : List Attr) :
    (s.submittedJob env user queue attrs).hosts = [] := by
  have idle : (((Job.newJob queue s.cfg.serverName env.now).setOwner user).applyJobAttrs
      s.jobMgr.formatJobID env.now attrs).hosts = [] := Job.applyJobAttrs_idle (by simp [Job.newJob])
  simp only [submittedJob]
  split
  · exact idle
  · exact idle

theorem selectNodes_nodup (s : Server) (env : Env) (first : String) (count ppn : Int) :
    (s.selectNodes env first count ppn).Nodup := by
  refine List.nodup_cons.mpr ⟨fun again => ?_, ?_⟩
  · simpa using (List.mem_filter.mp (List.mem_of_mem_take again)).2
  · exact ((Assoc.nodup_range _ _).filter _).sublist (List.take_sublist _ _)

theorem dispatchDone_hosts (d : Dispatch) (session : String) :
    (s.dispatchDone d session).hostsOf = s.hostsOf := by
  unfold dispatchDone
  split
  case h_1 j sid object _ =>
    by_cases present : d.job ∈ s.jobMgr.jobs
    · obtain ⟨k, found⟩ := Assoc.exists_lookup present
      have same : k = j := by simpa [JobManager.object, found] using object
      have kept : s.hostsOf d.job = (j.setSession sid).hosts := by
        rw [hostsOf_of_lookup found, same]
        rfl
      exact (hostsOf_putObject present).trans (by rw [← kept]; exact Function.update_eq_self ..)
    · exact hostsOf_putObject_removed present
  · rfl

/-- The steps that keep the two records together, in the state before the step. -/
def Orderly (s : Server) (env : Env) : Step → Prop
  | .request (.queueJob ..) => s.jobMgr.nextJobID < maxInt
  | .request (.commit given) | .request (.jobScript given _ true) =>
    ∀ found ∈ s.getJob env given, s.CommitIdle given found.1 found.2
  | .request (.deleteJob given) =>
    ∀ found ∈ s.getJob env given, given = found.1 ∨ s.hostsOf given = []
  | .request (.modifyJob given attrs) =>
    ∀ found ∈ s.getJob env given, found.2.state = .running → ∀ a ∈ attrs, Job.Quiet env.now a
  | .request (.rerunJob given) =>
    ∀ found ∈ s.getJob env given, (s.hostsOf found.1).length ≤ 1
  | .request (.jobObit _ _ given _ _) =>
    ∀ found ∈ s.getJob env given,
      given = found.1 ∨ s.hostsOf found.1 = [] ∧ s.hostsOf given = []
  | .request (.manager (.createNode name _)) => CleanName name
  | .request (.manager (.deleteNode _)) => False
  | .statusMessage msg => CleanName msg.hostname
  | .dispatchFailed d =>
    s.hostsOf d.job = [] ∨ s.hostsOf d.job = [d.node] ∧ d.detached = false
  | .checkNodes => ∀ name ∈ s.nodeMgr.keys, s.stale env name → ∀ id ∈ s.assigned name,
      s.hostsOf id = [name] ∧ Text.trimSpace id = id
  | _ => True

end Server

theorem Effect.consistent (effect : Effect s env step s') (consistent : s.Consistent)
    (numbered : s.Numbered next) (orderly : s.Orderly env step) : s'.Consistent := by
  have same := Server.SameHosts.refl s
  have idle {given key : String} {j : Job} (found : s.getJob env given = some (key, j))
      (ready : j.state = .queued ∨ j.state = .provisioning) : s.hostsOf key = [] := by
    rw [Server.hostsOf_of_getJob found]
    rcases ready with state | state <;> exact Job.hosts_of_state (by simp [state])
  cases effect with
  | unchanged => exact consistent
  | recounted => exact consistent.same same.onQueues
  | numbered => exact consistent.same { same with }
  | submitted =>
    refine consistent.same (Server.SameHosts.addJob { same with } ?_)
    rw [Server.hostsOf_of_not_mem numbered.nextIsNew.1, s.submittedJob_hosts]
  | scripted found =>
    refine consistent.same (same.putJob ?_).onStore
    rw [Server.hostsOf_of_getJob found]
    rfl
  | scriptCommitted found =>
    refine consistent.same (Server.SameHosts.commit (same.putJob ?_).onStore ?_)
    · rw [Server.hostsOf_of_getJob found]
      rfl
    · exact orderly _ found
  | committed found => exact consistent.same (same.commit (orderly _ found))
  | deleted found => exact consistent.delete found (orderly _ found)
  | held _ found idle =>
    refine consistent.same (same.putJob ?_).onQueues
    rw [Server.hostsOf_of_getJob found, Job.hosts_setState (by simp), Job.hosts_of_state]
    rcases idle with state | state <;> simp [state]
  | released _ found held =>
    refine consistent.same (same.putJob ?_).onQueues
    rw [Server.hostsOf_of_getJob found, Job.hosts_setState (by simp),
      Job.hosts_of_state (by simp [held])]
  | cleared found =>
    refine consistent.same (same.putJob ?_)
    rw [Server.hostsOf_of_getJob found]
    rfl
  | @modified _ key j attrs found =>
    refine consistent.same (same.putJob ?_).onStore
    rw [Server.hostsOf_of_getJob found]
    by_cases running : j.state = .running
    · exact (Job.applyJobAttrs_quiet (orderly _ found running)).symm
    · rw [Job.applyJobAttrs_idle running, Job.hosts_of_state running]
  | moved _ found =>
    refine consistent.same (same.putJob ?_).onQueues.onStore
    rw [Server.hostsOf_of_getJob found]
    rfl
  | @rerun _ key j found running placed =>
    have hosts : s.hostsOf key = Job.hostNames j.execHost := by
      rw [Server.hostsOf_of_getJob found, Job.hosts, if_pos ⟨running, placed⟩]
    refine consistent.requeue ?_
    have short : (s.hostsOf key).length ≤ 1 := orderly _ found
    cases listed : s.hostsOf key with
    | nil => simp
    | cons name rest =>
      obtain rfl : rest = [] := by simpa [listed] using short
      rw [hostNames_single (hosts ▸ listed)]
      simp
  | @requeued _ key j found unplaced =>
    refine consistent.requeue_idle ?_
    rw [Server.hostsOf_of_getJob found]
    rcases unplaced with ⟨-, empty⟩ | queued
    · simp [Job.hosts, empty]
    · exact Job.hosts_of_state (by simp [queued])
  | ordered found₁ found₂ =>
    refine consistent.same (((same.putJob ?_).putJob ?_).onStore).onStore
    · rw [Server.hostsOf_of_getJob found₁]
      rfl
    · rw [Server.hostsOf_of_getJob found₂]
      rfl
  | failedDependency found =>
    refine consistent.same (same.putJob ?_)
    rw [Server.hostsOf_of_getJob found]
    rfl
  | started found ready _ _ present =>
    have member := Assoc.mem_of_lookup present
    exact consistent.start (idle found ready) (by simpa using member) (by simp) (by simp)
  | startedMulti found ready _ _ present =>
    have member := Assoc.mem_of_lookup present
    exact consistent.start (idle found ready) (Server.selectNodes_present member env _ _)
      (s.selectNodes_nodup ..) (by simp [Server.selectNodes])
  | ended found =>
    exact consistent.finish found (Job.hosts_of_state (by simp [Server.obituary])) (orderly _ found)
  | managed done =>
    refine consistent.manage done ?_ ?_
    · rintro name attrs rfl
      exact orderly
    · rintro name rfl
      exact orderly
  | authenticated => exact ⟨consistent.mirror, consistent.clean⟩
  | heard => exact consistent.handleISMessage orderly
  | dispatched =>
    refine consistent.same ⟨s.dispatchDone_hosts _ _, ?_, ?_⟩
    all_goals
      unfold Server.dispatchDone
      split <;> rfl
  | @undone d =>
    exact .undoJobDispatch (s := s.endDispatch d) ⟨consistent.mirror, consistent.clean⟩ orderly
  | nodesChecked =>
    have single : ∀ name, s.stale env name → ∀ id ∈ s.assigned name,
        s.hostsOf id = [name] ∧ Text.trimSpace id = id := by
      intro name stale
      refine orderly name (AList.mem_keys.mp (AList.lookup_isSome.mp ?_)) stale
      obtain ⟨n, found, -⟩ := (Option.any_eq_true _ _).mp stale
      simp [found]
    have drained : s.Drained env (s.checkNodes env) :=
      List.foldlRecOn _ _ (.refl consistent env) fun _ kept _ _ => kept.checkNode consistent single
    exact drained.consistent
  | promoted =>
    exact consistent.same (List.foldlRecOn _ _ same fun _ kept _ _ => kept.promote)
  | cleaned => exact consistent.same (List.foldlRecOn _ _ same fun _ kept _ _ => kept.purge)
  | reconciled => exact List.foldlRecOn _ _ consistent fun _ kept _ _ => kept.reconcile

/-- In every run from the empty server whose steps are orderly, every node lists exactly
the running jobs that name it. -/
theorem assignments_agree_of_orderly (name : String) (backend : Backend) (steps : List (Env × Step))
    (orderly : Along (fun s l => s.step l.1 l.2) (fun s l => s.Orderly l.1 l.2)
      (Server.new name { backend }) steps) :
    (steps.foldl (fun s l => s.step l.1 l.2) (Server.new name { backend })).AssignmentsAgree := by
  have empty : (Server.new name { backend }).Consistent :=
    ⟨⟨by simp [Server.new, Server.hostsOf, Server.assigned], by simp [Server.new, Server.assigned]⟩,
      by simp [Server.new]⟩
  have preserves : ∀ (s : Server) (l : Env × Step), s.Consistent ∧ s.Ahead → s.Orderly l.1 l.2 →
      (s.step l.1 l.2).Consistent ∧ (s.step l.1 l.2).Ahead := by
    rintro s ⟨env, step⟩ ⟨consistent, ahead⟩ ok
    have room : step.HasRoom s := by
      unfold Step.HasRoom
      split
      · exact ok
      · trivial
    obtain ⟨next, numbered⟩ := ahead
    exact ⟨(s.step_effect env step).consistent consistent numbered ok,
      Server.Ahead.step ⟨next, numbered⟩ env step room⟩
  exact (orderly.invariant preserves ⟨empty, .new name backend⟩).1.agree

instance (s : Server) (given id : String) (j : Job) : Decidable (s.CommitIdle given id j) :=
  inferInstanceAs (Decidable (∀ x ∈ _, _))

instance (s : Server) (env : Env) (step : Step) : Decidable (s.Orderly env step) := by
  induction step using Step.casesOn with
  | request r =>
    induction r using Request.casesOn with
    | jobScript _ _ finish =>
      induction finish using Bool.casesOn <;> unfold Server.Orderly <;> infer_instance
    | manager command =>
      induction command using Server.MgrCommand.casesOn <;> unfold Server.Orderly <;> infer_instance
    | _ => unfold Server.Orderly; infer_instance
  | _ => unfold Server.Orderly; infer_instance

/-- A job is submitted and started on the node `n1`. -/
def startedRun : List Request :=
  [.manager (.createQueue "batch" []), .manager (.createNode "n1" []),
    .queueJob "alice@host" "batch" [], .commit "0.server", .runJob "0.server" "n1"]

def endedRun : List Request := startedRun ++ [.jobObit "n1" true "0.server" 0 []]

theorem assignments_agree_of_orderly_run :
    Along (fun s l => s.step l.1 l.2) (fun s l => s.Orderly l.1 l.2) (Server.new "server" {})
        (atOnce endedRun) ∧
      (fromEmpty (atOnce endedRun)).AssignmentsAgree :=
  have orderly : Along (fun s l => s.step l.1 l.2) (fun s l => s.Orderly l.1 l.2)
      (Server.new "server" {}) (atOnce endedRun) := by decide +kernel
  ⟨orderly, assignments_agree_of_orderly "server" .file _ orderly⟩

/-- A hold is set on the running job through `ModifyJob`. -/
def heldRun : List Request :=
  startedRun ++ [.modifyJob "0.server" [{ name := "Hold_Types", value := "u" }]]

/-- The hold ends the state `Running` and leaves the job on the list of its node. -/
theorem modify_leaves_job_assigned : ¬ (fromEmpty (atOnce heldRun)).AssignmentsAgree := by
  intro agree
  have kept : "n1" ∈ (fromEmpty (atOnce heldRun)).nodeMgr ∧
      "0.server" ∈ (fromEmpty (atOnce heldRun)).assigned "n1" ∧
      (fromEmpty (atOnce heldRun)).hostsOf "0.server" = [] := by decide +kernel
  obtain ⟨present, listed, idle⟩ := kept
  simpa [idle] using ((agree "n1" present).2 "0.server").mp listed

end OpenTorque.Pbs
