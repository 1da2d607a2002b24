import OpenTorque.Core.Records
import OpenTorque.Server.Arrays

/-! The gate of a queue on the ways a job can come to it. A commit makes the job `Queued`
before it asks the gate: a job sent to the queue itself is already counted there, one sent
to a route queue is not. The hosts a job may be submitted from are tested twice, by two
comparisons. -/
namespace OpenTorque.Pbs

namespace JobManager
variable {m : JobManager} {wanted : Job → Bool} {id : String} {j : Job}

theorem count_put : (m.put id j).count wanted =
    (m.removeJob id).count wanted + if wanted j then 1 else 0 := by
  have others : (m.removeJob id).jobs.entries = m.jobs.entries.kerase id := by
    rw [removeJob]
    cases found : m.jobs.lookup id with
    | none =>
      have fresh : id ∉ m.jobs.entries.keys := AList.lookup_eq_none.mp found
      exact (List.kerase_of_notMem_keys fresh).symm
    | some _ => rfl
  have entered : (m.put id j).jobs.entries = ⟨id, j⟩ :: m.jobs.entries.kerase id := rfl
  rw [count, count, entered, others, List.filter_cons]
  split <;> rfl

theorem put_put (k : Job) : (m.put id j).put id k = m.put id k := by
  simp [put, AList.insert_insert]

end JobManager

namespace Queue
variable (q : Queue) (jm : JobManager) (name id user : String) (j : Job) (fromRoute : Bool)

/-- The number of jobs the gate compares a limit on waiting jobs with. -/
def waiting (jm : JobManager) (name user : String) (limit : QueueNumber) : Nat :=
  match limit with
  | .maxJobs => jm.countByStateInQueue name [.queued, .provisioning]
      + jm.countByStateInQueue name [.held] + jm.countByStateInQueue name [.waiting]
  | .maxUserJobs => jm.countQueuedByOwnerInQueue name user
  | _ => 0

/-- The `acl_hosts` test of the gate. -/
def passesHosts (host : String) : Bool :=
  !q.flag .aclHostEnabled || q.list .aclHosts = []
    || host ≠ "" && q.allows .aclHostEnabled .aclHosts host

/-- A job passes the gate if it passes every test. -/
theorem admitToQueue_isOk : (q.admitToQueue jm name id j user fromRoute).isOk =
    (q.flag .enabled && (q.flag .started && ((!q.fromRouteOnly || fromRoute) &&
    (((jobTypes j).find? (· ∈ q.list .disallowedTypes)).isNone &&
    (!q.reached .maxJobs (waiting jm name user .maxJobs) &&
    (!q.reached .maxRun (jm.countByStateInQueue name [.running]) &&
    (!q.reached .maxUserJobs (waiting jm name user .maxUserJobs) &&
    (!q.reached .maxUserRun (jm.countRunningByOwnerInQueue name user) &&
    (q.allows .aclUserEnabled .aclUsers (extractUser user) &&
    (q.allows .aclGroupEnabled .aclGroups (j.text .egroup) &&
    (q.passesHosts (submitHostOf j) && (checkResourceInterval q j id).isOk))))))))))) := by
  simp only [admitToQueue, isOk_require_bind]
  rfl

/-- The gate is the test of one limit and the gate of the queue without it. -/
theorem admitToQueue_lift (which : limit = .maxJobs ∨ limit = .maxUserJobs) :
    (q.admitToQueue jm name id j user fromRoute).isOk =
      (!q.reached limit (waiting jm name user limit) &&
        ((q.setNumber limit 0).admitToQueue jm name id j user fromRoute).isOk) := by
  have lifted (n : Nat) : (q.setNumber limit 0).reached limit n = false := by
    simp [reached, setNumber]
  have kept (other : QueueNumber) (apart : other ≠ limit) :
      (q.setNumber limit 0).reached other = q.reached other := by
    funext n
    simp [reached, setNumber, apart]
  have same : (q.setNumber limit 0).flag = q.flag ∧ (q.setNumber limit 0).list = q.list ∧
      (q.setNumber limit 0).fromRouteOnly = q.fromRouteOnly ∧
      (q.setNumber limit 0).allows = q.allows ∧
      (q.setNumber limit 0).passesHosts = q.passesHosts ∧
      checkResourceInterval (q.setNumber limit 0) = checkResourceInterval q :=
    ⟨rfl, rfl, rfl, rfl, rfl, rfl⟩
  simp only [admitToQueue_isOk, same]
  rcases which with rfl | rfl
  · rw [lifted, kept .maxRun (by decide), kept .maxUserJobs (by decide), kept .maxUserRun (by decide)]
    cases q.reached .maxJobs (waiting jm name user .maxJobs) <;>
      simp only [Bool.not_true, Bool.not_false, Bool.false_and, Bool.and_false, Bool.true_and]
  · rw [lifted, kept .maxRun (by decide), kept .maxJobs (by decide), kept .maxUserRun (by decide)]
    cases q.reached .maxUserJobs (waiting jm name user .maxUserJobs) <;>
      simp only [Bool.not_true, Bool.not_false, Bool.false_and, Bool.and_false, Bool.true_and]

end Queue

namespace Server
variable {s : Server} {env : Env} {id dest route : String} {j : Job} {q rq : Queue}
  {limit : QueueNumber}

/-- The state in which the gate sees a job that is being committed. -/
def presented (s : Server) (env : Env) (id : String) (j : Job) : Server :=
  (s.putJob id (j.setDefaultOutputPaths id env.hostname)).updateJobState env id .queued

def sentTo (s : Server) (id : String) (j : Job) (queue : String) : Server :=
  s.putJob id (j.setQueue queue)

/-- Whether the commit of a job that was sent to a queue is accepted. -/
def commits (s : Server) (env : Env) (id : String) (j : Job) (queue : String) : Bool :=
  ((s.sentTo id j queue).commitJobInstance env id j.owner).2.isOk

/-- Whether `routeJob` takes a destination for a job that was sent to a route queue. -/
def takes (s : Server) (env : Env) (id : String) (j : Job) (route dest : String) : Bool :=
  ((s.presented env id (j.setQueue route)).admits dest id ((j.setQueue route).turnedAway env id)
    j.owner true).isOk

/-- The server without a limit of a queue. -/
def lift (s : Server) (dest : String) (limit : QueueNumber) : Server :=
  s.onQueue dest (·.setNumber limit 0)

/-- The other jobs the gate compares a limit with. -/
def others (s : Server) (id dest owner : String) (limit : QueueNumber) : Nat :=
  Queue.waiting (s.jobMgr.removeJob id) dest owner limit

theorem presented_jobMgr (s : Server) (env : Env) (id : String) (j : Job) :
    (s.presented env id j).jobMgr.count wanted =
      (s.jobMgr.put id (j.turnedAway env id)).count wanted := by
  simp [presented, JobManager.updateJobState, JobManager.count, Job.turnedAway, AList.insert_insert]

theorem waiting_presented (s : Server) (env : Env) (id : String) (j : Job) (dest : String)
    (which : limit = .maxJobs ∨ limit = .maxUserJobs) :
    Queue.waiting (s.presented env id j).jobMgr dest j.owner limit =
      s.others id dest j.owner limit + if j.queue = dest then 1 else 0 := by
  have state : (j.turnedAway env id).state = .queued := rfl
  have queue : (j.turnedAway env id).queue = j.queue := j.turnedAway_queue env id
  have owner : (j.turnedAway env id).owner = j.owner := by
    rw [Job.turnedAway, Job.setDefaultOutputPaths_eq]
    rfl
  rcases which with rfl | rfl
  all_goals
    simp only [Queue.waiting, others, JobManager.countByStateInQueue,
      JobManager.countQueuedByOwnerInQueue, presented_jobMgr, JobManager.count_put, state, queue, owner]
    by_cases same : j.queue = dest <;> simp [same] <;> omega

theorem commits_eq (s : Server) (env : Env) (id : String) (j : Job) (queue : String) :
    s.commits env id j queue = ((s.presented env id (j.setQueue queue)).finalizeRoute id
      ((j.setQueue queue).turnedAway env id) j.owner).isOk := by
  have found : (s.sentTo id j queue).jobMgr.jobs.lookup id = some (j.setQueue queue) := by simp [sentTo]
  have same : ((s.sentTo id j queue).putJob id
      ((j.setQueue queue).setDefaultOutputPaths id env.hostname)).updateJobState env id .queued =
      s.presented env id (j.setQueue queue) := by
    simp [presented, sentTo, onJobs, JobManager.put_put]
  simp only [commits, commitJobInstance, found]
  rw [same]
  show _ = ((s.presented env id (j.setQueue queue)).finalizeRoute id
    (((j.setQueue queue).setDefaultOutputPaths id env.hostname).setState env.now .queued) j.owner).isOk
  split
  case h_1 refused => rw [refused]; rfl
  case h_2 chosen => rw [chosen]; rfl

theorem finalizeRoute_execution (found : s.queueMgr.lookup j.queue = some q)
    (kind : q.type = .execution) : (s.finalizeRoute id j owner).isOk =
      (q.admitToQueue s.jobMgr j.queue id j owner false).isOk := by
  have direct : s.routeJob id j owner = .ok (j.queue, false) := by
    rw [routeJob, found]
    exact if_pos (by rw [kind]; decide)
  have gate : s.admits j.queue id j owner false = q.admitToQueue s.jobMgr j.queue id j owner false := by
    rw [admits, found]
  simp only [finalizeRoute, direct, bind, Except.bind, gate]
  cases q.admitToQueue s.jobMgr j.queue id j owner false <;> rfl

theorem finalizeRoute_route (found : s.queueMgr.lookup j.queue = some q) (kind : q.type = .route) :
    (s.finalizeRoute id j owner).isOk =
      (q.list .routeDestin).any fun dest => (s.admits dest id j owner true).isOk := by
  rw [finalizeRoute, routeJob, found]
  simp only [kind, ne_eq, not_true_eq_false, if_false]
  split
  case isTrue none => rw [none]; rfl
  case isFalse =>
    rw [Bool.eq_iff_iff, List.any_eq_true, ← List.find?_isSome]
    cases (q.list .routeDestin).find? fun dest => (s.admits dest id j owner true).isOk with
    | none => simp [bind, Except.bind, Except.isOk, Except.toBool]
    | some dest => simp [bind, Except.bind, Except.isOk, Except.toBool, pure, Except.pure]

/-- A commit of a job sent to an execution queue asks the gate of that queue. -/
theorem commits_execution (found : s.queueMgr.lookup dest = some q) (kind : q.type = .execution) :
    s.commits env id j dest = (q.admitToQueue (s.presented env id (j.setQueue dest)).jobMgr dest id
      ((j.setQueue dest).turnedAway env id) j.owner false).isOk := by
  have queue : ((j.setQueue dest).turnedAway env id).queue = dest := Job.turnedAway_queue ..
  rw [commits_eq, finalizeRoute_execution (by rw [queue]; exact found) kind, queue]

/-- A commit of a job sent to a route queue asks the gates of its destinations. -/
theorem commits_route (found : s.queueMgr.lookup route = some q) (kind : q.type = .route) :
    s.commits env id j route = (q.list .routeDestin).any (s.takes env id j route) := by
  have queue : ((j.setQueue route).turnedAway env id).queue = route := Job.turnedAway_queue ..
  rw [commits_eq, finalizeRoute_route (by rw [queue]; exact found) kind]
  rfl

section
variable (found : s.queueMgr.lookup dest = some q)
include found

theorem takes_of_lookup :
    s.takes env id j route dest = (q.admitToQueue (s.presented env id (j.setQueue route)).jobMgr dest id
      ((j.setQueue route).turnedAway env id) j.owner true).isOk := by
  have queues : (s.presented env id (j.setQueue route)).queueMgr.lookup dest = some q := found
  rw [takes, admits, queues]

theorem lookup_lift (name : String) :
    (s.lift dest limit).queueMgr.lookup name =
      if name = dest then some (q.setNumber limit 0) else s.queueMgr.lookup name := by
  simp [lift, QueueManager.onQueue, found, Assoc.lookup_insert_ite]

/-- Of a job sent to the queue itself the gate refuses one more. -/
theorem commits_direct (kind : q.type = .execution)
    (which : limit = .maxJobs ∨ limit = .maxUserJobs)
    (lifted : (s.lift dest limit).commits env id j dest = true) :
    s.commits env id j dest = !q.reached limit (s.others id dest j.owner limit + 1) := by
  have without : (s.lift dest limit).queueMgr.lookup dest = some (q.setNumber limit 0) := by
    simp [lookup_lift found]
  have own := waiting_presented s env id (j.setQueue dest) dest which
  rw [if_pos (by rfl)] at own
  rw [commits_execution without kind] at lifted
  rw [commits_execution found kind, Queue.admitToQueue_lift _ _ _ _ _ _ _ which]
  rw [show ((s.lift dest limit).presented env id (j.setQueue dest)).jobMgr =
    (s.presented env id (j.setQueue dest)).jobMgr from rfl] at lifted
  rw [lifted, Bool.and_true]
  exact congrArg (fun n => !q.reached limit n) own

theorem takes_routed (other : route ≠ dest)
    (which : limit = .maxJobs ∨ limit = .maxUserJobs)
    (lifted : (s.lift dest limit).takes env id j route dest = true) :
    s.takes env id j route dest = !q.reached limit (s.others id dest j.owner limit) := by
  have without : (s.lift dest limit).queueMgr.lookup dest = some (q.setNumber limit 0) := by
    simp [lookup_lift found]
  have own := waiting_presented s env id (j.setQueue route) dest which
  rw [if_neg (by exact other)] at own
  rw [takes_of_lookup without] at lifted
  rw [takes_of_lookup found, Queue.admitToQueue_lift _ _ _ _ _ _ _ which]
  rw [show ((s.lift dest limit).presented env id (j.setQueue route)).jobMgr =
    (s.presented env id (j.setQueue route)).jobMgr from rfl] at lifted
  rw [lifted, Bool.and_true]
  exact congrArg (fun n => !q.reached limit n) own

end

/-- A commit through a route queue is decided by the one destination that may take the job. -/
theorem commits_alone (found : s.queueMgr.lookup route = some q) (kind : q.type = .route)
    (listed : dest ∈ q.list .routeDestin)
    (alone : ∀ other ∈ q.list .routeDestin, other ≠ dest → s.takes env id j route other = false) :
    s.commits env id j route = s.takes env id j route dest := by
  rw [commits_route found kind, Bool.eq_iff_iff, List.any_eq_true]
  constructor
  · rintro ⟨other, member, taken⟩
    by_cases same : other = dest
    · exact same ▸ taken
    · rw [alone other member same] at taken
      cases taken
  · exact fun taken => ⟨dest, listed, taken⟩

/-- The gate refuses a job sent to the queue itself and one that is routed there for the
same number of other jobs, except when one more would reach the limit. -/
theorem queue_limit_counts_others_iff (found : s.queueMgr.lookup dest = some q)
    (execution : q.type = .execution) (router : s.queueMgr.lookup route = some rq)
    (routing : rq.type = .route) (listed : dest ∈ rq.list .routeDestin)
    (alone : ∀ other ∈ rq.list .routeDestin, other ≠ dest → s.takes env id j route other = false)
    (which : limit = .maxJobs ∨ limit = .maxUserJobs) (positive : 0 < q.number limit)
    (direct : (s.lift dest limit).commits env id j dest = true)
    (routed : (s.lift dest limit).commits env id j route = true) :
    ((s.commits env id j dest = false ↔ q.number limit ≤ s.others id dest j.owner limit) ∧
      (s.commits env id j route = false ↔ q.number limit ≤ s.others id dest j.owner limit)) ↔
    q.number limit ≠ s.others id dest j.owner limit + 1 := by
  have apart : route ≠ dest := by
    rintro rfl
    obtain rfl := Option.some.inj (found.symm.trans router)
    rw [execution] at routing
    cases routing
  have kept : (s.lift dest limit).queueMgr.lookup route = some rq := by
    rw [lookup_lift found, if_neg apart, router]
  have still : ∀ other ∈ rq.list .routeDestin, other ≠ dest →
      (s.lift dest limit).takes env id j route other = false := by
    intro other member different
    have same : ((s.lift dest limit).presented env id (j.setQueue route)).queueMgr.lookup other =
        s.queueMgr.lookup other := by
      show (s.lift dest limit).queueMgr.lookup other = _
      rw [lookup_lift found, if_neg different]
    rw [← alone other member different, takes, takes, admits, admits, same]
    rfl
  rw [commits_alone kept routing listed still] at routed
  rw [commits_alone router routing listed alone, takes_routed found apart which routed,
    commits_direct found execution which direct]
  simp only [Queue.reached, positive, decide_true, Bool.true_and, Bool.not_eq_false', decide_eq_true_eq]
  constructor
  · rintro ⟨same, -⟩
    omega
  · intro different
    exact ⟨by omega, trivial⟩

end Server

/-- A queue with a limit, a route queue that leads to it, and one job that is not committed. -/
def limitRun (limit : String) : List Request :=
  [.manager (.createQueue "batch" [{ name := "max_queuable", value := limit }]),
    .manager (.createQueue "in" [{ name := "queue_type", value := "Route" },
      { name := "route_destinations", value := "batch" }]),
    .queueJob "alice@host" "batch" []]

theorem queue_limit_two :
    let s := fromEmpty (atOnce (limitRun "2"))
    ∃ j q, s.job "0.server" = some j ∧ s.queueMgr.lookup "batch" = some q ∧
      (s.commits { now := 3 } "0.server" j "batch" = false ↔
        q.number .maxJobs ≤ s.others "0.server" "batch" j.owner .maxJobs) ∧
      (s.commits { now := 3 } "0.server" j "in" = false ↔
        q.number .maxJobs ≤ s.others "0.server" "batch" j.owner .maxJobs) := by
  intro s
  have queues : (s.queueMgr.lookup "batch").any (fun q => q.type = .execution ∧ q.number .maxJobs = 2) ∧
      (s.queueMgr.lookup "in").any (fun q => q.type = .route ∧ q.list .routeDestin = ["batch"]) := by
    decide +kernel
  have facts : (s.job "0.server").any (fun j => s.others "0.server" "batch" j.owner .maxJobs = 0 ∧
      (s.lift "batch" .maxJobs).commits { now := 3 } "0.server" j "batch" = true ∧
      (s.lift "batch" .maxJobs).commits { now := 3 } "0.server" j "in" = true) = true := by
    decide +kernel
  obtain ⟨j, found, holds⟩ := (Option.any_eq_true _ _).mp facts
  obtain ⟨q, execution, shape⟩ := (Option.any_eq_true _ _).mp queues.1
  obtain ⟨r, router, leads⟩ := (Option.any_eq_true _ _).mp queues.2
  obtain ⟨none, direct, routed⟩ := of_decide_eq_true holds
  obtain ⟨kind, two⟩ := of_decide_eq_true shape
  obtain ⟨routing, dests⟩ := of_decide_eq_true leads
  refine ⟨j, q, found, execution, (Server.queue_limit_counts_others_iff execution kind router routing
    (by simp [dests]) (by simp [dests]) (.inl rfl) (by omega) direct routed).mpr ?_⟩
  rw [none, two]
  decide

/-- With no other job in the server, a queue for one job refuses the first that is sent to it. -/
theorem queue_for_one_refuses_first :
    let s := fromEmpty (atOnce (limitRun "1"))
    ∃ j q, s.job "0.server" = some j ∧ s.queueMgr.lookup "batch" = some q ∧ q.number .maxJobs = 1 ∧
      s.others "0.server" "batch" j.owner .maxJobs = 0 ∧
      ((s.sentTo "0.server" j "batch").commitJobInstance { now := 3 } "0.server" j.owner).2 =
        .error "queue batch is at max_queuable (1)" ∧
      s.commits { now := 3 } "0.server" j "in" = true := by
  intro s
  have one : (s.queueMgr.lookup "batch").any (fun q => q.number .maxJobs = 1) := by decide +kernel
  have facts : (s.job "0.server").any (fun j => s.others "0.server" "batch" j.owner .maxJobs = 0 ∧
      ((s.sentTo "0.server" j "batch").commitJobInstance { now := 3 } "0.server" j.owner).2 =
        .error "queue batch is at max_queuable (1)" ∧
      s.commits { now := 3 } "0.server" j "in" = true) = true := by decide +kernel
  obtain ⟨j, found, holds⟩ := (Option.any_eq_true _ _).mp facts
  obtain ⟨q, batch, one⟩ := (Option.any_eq_true _ _).mp one
  exact ⟨j, q, found, batch, of_decide_eq_true one, of_decide_eq_true holds⟩

theorem aclContains_iff (filled : user ≠ "") : aclContains list user = true ↔
    ∃ part ∈ Text.split ',' list,
      user = Text.trimSpace part ∨ user = extractUser (Text.trimSpace part) := by
  simp only [aclContains, List.any_eq_true, Bool.and_eq_true, Bool.or_eq_true, decide_eq_true_eq]
  constructor
  · rintro ⟨part, member, -, same⟩
    exact ⟨part, member, same.imp Eq.symm Eq.symm⟩
  · rintro ⟨part, member, same⟩
    refine ⟨part, member, fun blank => filled ?_, same.imp Eq.symm Eq.symm⟩
    rw [blank] at same
    rcases same with rfl | rfl <;> rfl

/-- An entry with a comma in it stands for no host. -/
theorem not_aclContains_of_comma (comma : ',' ∈ host.toList) (filled : host ≠ "") :
    aclContains list host = false := by
  rw [Bool.eq_false_iff, Ne, aclContains_iff filled]
  rintro ⟨part, member, same⟩
  refine Text.not_mem_of_mem_split member (Text.subset_of_trimSpace part ?_)
  rcases same with rfl | rfl
  · exact comma
  · rw [extractUser, Text.before, String.toList_ofList] at comma
    exact (List.takeWhile_prefix _).subset comma

namespace Queue

/-- The entries of `acl_hosts` for which the two tests of the submission host agree: no
entry is itself a list, every spelling of an entry in other letters is listed too, and so
is the part of an entry before an `@`. -/
structure HostsClosed (q : Queue) : Prop where
  single : ∀ entry ∈ q.list .aclHosts, ',' ∉ entry.toList
  spelled : ∀ entry ∈ q.list .aclHosts, ∀ host ≠ "",
    Text.equalFold (Text.trimSpace entry) host = true →
    ∃ other ∈ q.list .aclHosts,
      host = Text.trimSpace other ∨ host = extractUser (Text.trimSpace other)
  users : ∀ entry ∈ q.list .aclHosts, extractUser (Text.trimSpace entry) ≠ "" →
    ∃ other ∈ q.list .aclHosts,
      Text.equalFold (Text.trimSpace other) (extractUser (Text.trimSpace entry)) = true

variable {q : Queue}

theorem passesHosts_of_filled (enabled : q.flag .aclHostEnabled = true)
    (some : q.list .aclHosts ≠ []) (filled : host ≠ "") :
    q.passesHosts host = aclContains (Text.join "," (q.list .aclHosts)) host := by
  simp [passesHosts, allows, enabled, some, filled]

theorem passesHosts_iff (enabled : q.flag .aclHostEnabled = true) (some : q.list .aclHosts ≠ [])
    (single : ∀ entry ∈ q.list .aclHosts, ',' ∉ entry.toList) (filled : host ≠ "") :
    q.passesHosts host = true ↔ ∃ entry ∈ q.list .aclHosts,
      host = Text.trimSpace entry ∨ host = extractUser (Text.trimSpace entry) := by
  have parts : Text.split ',' (Text.join "," (q.list .aclHosts)) = q.list .aclHosts :=
    Text.split_join rfl single some
  rw [passesHosts_of_filled enabled some filled, aclContains_iff filled, parts]

end Queue

namespace Server
variable {s : Server} {name : String} {q : Queue} {j : Job}

theorem queueAllowsSubmitHost_iff (found : s.queueMgr.lookup name = some q)
    (enabled : q.flag .aclHostEnabled = true) (listed : q.list .aclHosts ≠ [])
    (filled : submitHostOf j ≠ "") : s.queueAllowsSubmitHost name j = true ↔
      ∃ entry ∈ q.list .aclHosts, Text.equalFold (Text.trimSpace entry) (submitHostOf j) = true := by
  simp [queueAllowsSubmitHost, found, enabled, listed, filled]

/-- Every host is the host of some job. -/
theorem exists_submitHost (filled : host ≠ "") : ∃ j : Job, submitHostOf j = host := by
  refine ⟨{ variableList := (∅ : Assoc String).insert "PBS_O_HOST" host }, ?_⟩
  rw [submitHostOf, AList.lookup_insert, Option.getD_some]
  split
  · exact absurd rfl filled
  · rfl

/-- The two tests of the submission host are the same exactly for closed lists. -/
theorem host_gates_agree_iff (found : s.queueMgr.lookup name = some q)
    (enabled : q.flag .aclHostEnabled = true) :
    (∀ j : Job, s.queueAllowsSubmitHost name j = q.passesHosts (submitHostOf j)) ↔ q.HostsClosed := by
  by_cases none : q.list .aclHosts = []
  · have closed : q.HostsClosed := ⟨by simp [none], by simp [none], by simp [none]⟩
    exact ⟨fun _ => closed, fun _ j => by simp [queueAllowsSubmitHost, found, none, Queue.passesHosts]⟩
  constructor
  · intro agree
    have same (host : String) (filled : host ≠ "") :
        (∃ entry ∈ q.list .aclHosts, Text.equalFold (Text.trimSpace entry) host = true) ↔
          q.passesHosts host = true := by
      obtain ⟨j, rfl⟩ := exists_submitHost filled
      rw [← agree, queueAllowsSubmitHost_iff found enabled none filled]
    have single : ∀ entry ∈ q.list .aclHosts, ',' ∉ entry.toList := by
      intro entry member comma
      have inside : ',' ∈ (Text.trimSpace entry).toList :=
        Text.mem_trimSpace comma (by decide)
      have filled : Text.trimSpace entry ≠ "" := by
        intro blank
        simp [blank] at inside
      have passed := (same _ filled).mp ⟨entry, member, by simp [Text.equalFold]⟩
      rw [Queue.passesHosts_of_filled enabled none filled,
        not_aclContains_of_comma inside filled] at passed
      cases passed
    refine ⟨single, fun entry member host filled fold => ?_, fun entry member filled => ?_⟩
    · exact (Queue.passesHosts_iff enabled none single filled).mp
        ((same host filled).mp ⟨entry, member, fold⟩)
    · exact (same _ filled).mpr
        ((Queue.passesHosts_iff enabled none single filled).mpr ⟨entry, member, .inr rfl⟩)
  · intro closed j
    by_cases blank : submitHostOf j = ""
    · simp [queueAllowsSubmitHost, found, enabled, none, blank, Queue.passesHosts]
    · rw [Bool.eq_iff_iff, queueAllowsSubmitHost_iff found enabled none blank,
        Queue.passesHosts_iff enabled none closed.single blank]
      constructor
      · rintro ⟨entry, member, fold⟩
        exact closed.spelled entry member _ blank fold
      · rintro ⟨entry, member, whole | user⟩
        · exact ⟨entry, member, by simp [Text.equalFold, whole]⟩
        · rw [user] at blank ⊢
          exact closed.users entry member blank

end Server

/-- A queue with one submission host, and a job that comes from the host `node1`. -/
def hostRun (host : String) : List Request :=
  [.manager (.createQueue "batch" [{ name := "acl_host_enable", value := "true" },
      { name := "acl_hosts", value := host }]),
    .queueJob "alice" "batch" [{ name := "Variable_List", value := "PBS_O_HOST=node1" }]]

theorem host_gates_agree_for_address :
    let s := fromEmpty (atOnce (hostRun "10.0.0.1"))
    ∃ q, s.queueMgr.lookup "batch" = some q ∧ q.flag .aclHostEnabled = true ∧
      ∀ j : Job, s.queueAllowsSubmitHost "batch" j = q.passesHosts (submitHostOf j) := by
  intro s
  have facts : (s.queueMgr.lookup "batch").any (fun q =>
      q.flag .aclHostEnabled = true ∧ q.list .aclHosts = ["10.0.0.1"]) = true := by decide +kernel
  obtain ⟨q, found, holds⟩ := (Option.any_eq_true _ _).mp facts
  obtain ⟨enabled, hosts⟩ := of_decide_eq_true holds
  refine ⟨q, found, enabled, (Server.host_gates_agree_iff found enabled).mpr ⟨?_, ?_, ?_⟩⟩
  · rw [hosts]
    decide
  · rw [hosts]
    intro entry member host filled fold
    refine ⟨"10.0.0.1", by simp, .inl ?_⟩
    obtain rfl := List.mem_singleton.mp member
    exact Text.eq_of_equalFold fold (by decide +kernel)
  · rw [hosts]
    decide

/-- A host in other letters passes the test at submission and fails the test of the gate. -/
theorem host_gates_differ_in_case :
    let s := fromEmpty (atOnce (hostRun "Node1"))
    ∃ j q, s.job "0.server" = some j ∧ s.queueMgr.lookup "batch" = some q ∧
      q.flag .aclHostEnabled = true ∧ s.queueAllowsSubmitHost "batch" j = true ∧
      q.passesHosts (submitHostOf j) = false ∧
      q.admitToQueue s.jobMgr "batch" "0.server" j j.owner false =
        .error "queue batch: host node1 not in acl_hosts" := by
  intro s
  have facts : (s.job "0.server").any (fun j => (s.queueMgr.lookup "batch").any fun q =>
      q.flag .aclHostEnabled = true ∧ s.queueAllowsSubmitHost "batch" j = true ∧
      q.passesHosts (submitHostOf j) = false ∧
      q.admitToQueue s.jobMgr "batch" "0.server" j j.owner false =
        .error "queue batch: host node1 not in acl_hosts") = true := by decide +kernel
  obtain ⟨j, found, queue⟩ := (Option.any_eq_true _ _).mp facts
  obtain ⟨q, batch, holds⟩ := (Option.any_eq_true _ _).mp queue
  exact ⟨j, q, found, batch, of_decide_eq_true holds⟩

end OpenTorque.Pbs
