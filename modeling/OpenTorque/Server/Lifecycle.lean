import OpenTorque.Core.Records
import OpenTorque.Server.ArraySpec
import OpenTorque.Server.Assignment
import OpenTorque.Server.Recovery

/-! The life of one job in the manager: what a step can leave under one id, and when a
job that is `Complete` stays so. -/
namespace OpenTorque.Pbs
open Transition

theorem readArrayItems_nodup (items : List String) (values : List Int)
    (read : readArrayItems items values = .indices indices) : indices.Nodup :=
  (readArrayItems_ascending items values read).imp ne_of_lt

theorem arrayTaskID_injective (id server : String) : Function.Injective (arrayTaskID id server) := by
  intro i k same
  simp only [arrayTaskID, String.append_assoc] at same
  have texts := congrArg String.toList same
  simp only [String.toList_append, List.append_cancel_left_eq, List.append_cancel_right_eq] at texts
  exact itoa_injective (String.toList_injective texts)

namespace Job
variable (j : Job) (env : Env) (id dest : String)

/-- The job after `commitJobInstance` has put it into a queue. -/
def entered : Job :=
  let j := ((j.setDefaultOutputPaths id env.hostname).setState env.now .queued).setQueue dest
  if j.committedState env.now = .queued then j else j.setState env.now (j.committedState env.now)

/-- The job after `commitJobInstance` has found no queue for it. -/
def turnedAway : Job := (j.setDefaultOutputPaths id env.hostname).setState env.now .queued

end Job

/-- A step that commits the job `key`, which the client called `given`. -/
inductive Commits (s : Server) (env : Env) (given key : String) : Step → Job → Prop where
  | commit (found : s.getJob env given = some (key, j)) :
      Commits s env given key (.request (.commit given)) j
  | script (found : s.getJob env given = some (key, j)) :
      Commits s env given key (.request (.jobScript given data true)) (j.setScript data)

/-- What a step can leave in the manager under an id. -/
inductive Fate (s : Server) (env : Env) : Step → String → Option Job → Prop where
  | kept : Fate s env step key (s.job key)
  | deleted : Fate s env (.request (.deleteJob key)) key none
  | purged (found : s.job key = some j) (complete : j.state = .complete) :
      Fate s env .completedJobCleanup key none
  | discarded (commits : Commits s env given master step j)
      (listed : key ∈ master :: given :: s.tasksOf master j) : Fate s env step key none
  | submitted : Fate s env (.request (.queueJob user dest attrs)) s.jobMgr.formatJobID
      (some (s.submittedJob env user queue attrs))
  | scripted (found : s.getJob env given = some (key, j)) :
      Fate s env (.request (.jobScript given data autoCommit)) key (some (j.setScript data))
  | entered (commits : Commits s env given key step j) : Fate s env step key (some (j.entered env key dest))
  | turnedAway (commits : Commits s env given key step j) (other : given ≠ key) :
      Fate s env step key (some (j.turnedAway env key))
  | task (commits : Commits s env given master step j)
      (spec : parseArraySpec j.jobArrayReq = .indices values) (member : index ∈ values)
      (named : key = arrayTaskID master s.cfg.serverName index) :
      Fate s env step key
        (some ((j.cloneForArray index s.cfg.serverName env.now).entered env key dest))
  | held (found : s.getJob env given = some (key, j)) (idle : j.state = .queued ∨ j.state = .waiting) :
      Fate s env (.request (.holdJob given)) key (some (j.setState env.now .held))
  | released (found : s.getJob env given = some (key, j)) (held : j.state = .held) :
      Fate s env (.request (.releaseJob given)) key
        (some ((j.setHold "").setState env.now .queued))
  | cleared (found : s.getJob env given = some (key, j)) (other : j.state ≠ .held) :
      Fate s env (.request (.releaseJob given)) key (some (j.setHold ""))
  | modified (found : s.getJob env given = some (key, j)) :
      Fate s env (.request (.modifyJob given attrs)) key (some (j.applyJobAttrs key env.now attrs))
  | moved (found : s.getJob env given = some (key, j)) :
      Fate s env (.request (.moveJob given dest)) key (some (j.setQueue queue))
  | rerun (found : s.getJob env given = some (key, j))
      (state : j.state = .running ∨ j.state = .queued) :
      Fate s env (.request (.rerunJob given)) key
        (some ((j.setExec "" 0).setState env.now .queued))
  | ordered (found : s.job key = some j) :
      Fate s env (.request (.orderJob given₁ given₂)) key (some (j.setCreateTime time))
  | commented (found : s.getJob env given = some (key, j)) :
      Fate s env (.request (.runJob given dest)) key (some (j.setComment comment))
  | started (found : s.getJob env given = some (key, j))
      (ready : j.state = .queued ∨ j.state = .provisioning)
      (same : k = j ∨ ∃ nodeCount ppn, k = Server.sized j nodeCount ppn) :
      Fate s env (.request (.runJob given dest)) key
        (some ((k.setExec hosts port).setState env.now .running))
  | ended (found : s.getJob env given = some (key, j)) :
      Fate s env (.request (.jobObit remote privileged given status attrs)) key
        (some (Server.obituary j env status attrs))
  | dispatched (found : s.job d.job = some j) :
      Fate s env (.dispatchDone d session) d.job (some (j.setSession sid))
  | undone (pending : d ∈ s.dispatches) (found : s.job d.job = some j) :
      Fate s env (.dispatchFailed d) d.job (some ((j.setState env.now .queued).setExec "" 0))
  | unreachable (found : s.job key = some j) (running : j.state = .running) :
      Fate s env .checkNodes key (some ((j.setExec "" 0).setState env.now .queued))
  | promoted (found : s.job key = some j) (waiting : j.state = .waiting)
      (due : Time.isZero j.executionTime = false ∧ j.executionTime < env.now) :
      Fate s env .promoteWaitingJobs key (some (j.setState env.now .queued))
  | reconciled (found : s.job key = some j) (running : j.state = .running) :
      Fate s env (.reconcile answer) key (some ((j.setExec "" 0).setState env.now .queued))

/-- What a commit can leave under an id, over the state it is run in. -/
inductive CommitFate (s : Server) (env : Env) (given master : String) (j : Job) :
    String → Option Job → Prop where
  | kept : CommitFate s env given master j key (s.job key)
  | discarded (listed : key ∈ master :: given :: s.tasksOf master j) :
      CommitFate s env given master j key none
  | entered : CommitFate s env given master j master (some (j.entered env master dest))
  | turnedAway (other : given ≠ master) :
      CommitFate s env given master j master (some (j.turnedAway env master))
  | task (spec : parseArraySpec j.jobArrayReq = .indices values) (member : index ∈ values)
      (named : key = arrayTaskID master s.cfg.serverName index) :
      CommitFate s env given master j key
        (some ((j.cloneForArray index s.cfg.serverName env.now).entered env key dest))

namespace Server
variable {s t : Server} {env : Env} {id key given : String} {j : Job} {ids : List String}

section Commit

theorem commitJobInstance_job (env : Env) (found : s.job id = some j) (owner : String) :
    (∃ t reason, s.commitJobInstance env id owner = (t, .error reason) ∧
      t.job = Function.update s.job id (some (j.turnedAway env id))) ∨
    ∃ t dest, s.commitJobInstance env id owner = (t, .ok ()) ∧
      t.job = Function.update s.job id (some (j.entered env id dest)) := by
  have held : s.jobMgr.jobs.lookup id = some j := found
  simp only [commitJobInstance, held]
  split
  case h_1 reason _ => exact .inl ⟨_, reason, rfl, by simp [Job.turnedAway]⟩
  case h_2 dest _ =>
    refine .inr ⟨_, dest, rfl, ?_⟩
    rw [enterQueue, Job.entered]
    split <;> simp

/-- The tasks of an accepted array have all entered a queue; no other job is touched. -/
theorem commitTasks_job (env : Env) (present : ∀ id ∈ ids, ∃ j, s.job id = some j)
    (nodup : ids.Nodup) (owner : String) :
    (∀ x ∉ ids, (commitTasks env owner s ids).1.job x = s.job x) ∧
    ((commitTasks env owner s ids).2 = .ok () → ∀ id ∈ ids, ∀ j, s.job id = some j →
      ∃ dest, (commitTasks env owner s ids).1.job id = some (j.entered env id dest)) := by
  induction ids generalizing s with
  | nil => simp [commitTasks]
  | cons id ids ih =>
    obtain ⟨j, found⟩ := present id (by simp)
    rw [List.nodup_cons] at nodup
    rcases commitJobInstance_job env found owner with
      ⟨t, reason, done, job⟩ | ⟨t, dest, done, job⟩
    · simp only [commitTasks, done]
      refine ⟨fun x outside => ?_, by simp⟩
      rw [job, Function.update_of_ne (by rintro rfl; simp at outside)]
    · have others : ∀ x, x ≠ id → t.job x = s.job x := by
        intro x other
        rw [job, Function.update_of_ne other]
      have distinct : ∀ x ∈ ids, x ≠ id := by
        rintro x member rfl
        exact nodup.1 member
      have still : ∀ x ∈ ids, ∃ j, t.job x = some j := by
        intro x member
        rw [others x (distinct x member)]
        exact present x (by simp [member])
      obtain ⟨frame, rest⟩ := ih still nodup.2
      simp only [commitTasks, done]
      constructor
      · intro x outside
        rw [List.mem_cons, not_or] at outside
        rw [frame x outside.2, others x outside.1]
      · intro accepted x member k held
        rcases List.mem_cons.mp member with same | later
        · subst same
          obtain rfl : j = k := Option.some.inj (found.symm.trans held)
          exact ⟨dest, by rw [frame x nodup.1, job, Function.update_self]⟩
        · exact rest accepted x later k (by rw [others x (distinct x later), held])

theorem addTasks_clone (values : List Int) (nodup : values.Nodup) (member : i ∈ values) :
    (values.foldl (addTask env id j) s).job (arrayTaskID id s.cfg.serverName i) =
      some (j.cloneForArray i s.cfg.serverName env.now) := by
  induction values generalizing s with
  | nil => simp at member
  | cons first values ih =>
    rw [List.nodup_cons] at nodup
    rcases List.mem_cons.mp member with same | later
    · subst same
      have outside : arrayTaskID id s.cfg.serverName i ∉
          values.map (arrayTaskID id (addTask env id j s i).cfg.serverName) := by
        intro listed
        obtain ⟨k, there, equal⟩ := List.mem_map.mp listed
        exact nodup.1 (arrayTaskID_injective id _ equal ▸ there)
      rw [List.foldl_cons, addTasks_job values outside, job_addTask, Function.update_self]
    · exact ih (s := addTask env id j s first) nodup.2 later

theorem job_discard : (s.discard id).job = Function.update s.job id none := job_removeJob

theorem job_discardAll (ids : List String) (x : String) :
    (ids.foldl discard s).job x = if x ∈ ids then none else s.job x := by
  induction ids generalizing s with
  | nil => simp
  | cons id ids ih =>
    rw [List.foldl_cons, ih, job_discard]
    by_cases same : x = id
    · subst same; simp
    · simp [same]

theorem processJobArray_fate (owner : String) (x : String) :
    CommitFate s env given id j x ((s.processJobArray env id j owner).1.job x) := by
  rw [processJobArray]
  split
  · exact .kept
  · split
    case h_4 values _ spec =>
      have nodup : values.Nodup := readArrayItems_nodup _ _ spec
      have tasks : (values.map (arrayTaskID id s.cfg.serverName)).Nodup :=
        nodup.map (arrayTaskID_injective id _)
      have present : ∀ task ∈ values.map (arrayTaskID id s.cfg.serverName),
          ∃ k, (values.foldl (addTask env id j) s).job task = some k :=
        fun task => addTasks_present values
      obtain ⟨frame, committed⟩ := commitTasks_job env present tasks owner
      simp only
      split
      case h_1 outcome =>
        rw [outcome] at frame
        rw [job_discardAll]
        split
        case isTrue task => exact .discarded (by simp [tasksOf, spec, List.mem_map.mp task])
        case isFalse other => rw [frame x other, addTasks_job values other]; exact .kept
      case h_2 outcome =>
        rw [outcome] at frame committed
        rw [job_discard]
        by_cases same : x = id
        · rw [same, Function.update_self]
          exact .discarded (by simp)
        rw [Function.update_of_ne same]
        by_cases task : x ∈ values.map (arrayTaskID id s.cfg.serverName)
        · obtain ⟨i, member, named⟩ := List.mem_map.mp task
          obtain ⟨dest, entered⟩ := committed rfl x task _
            (named ▸ addTasks_clone values nodup member)
          rw [entered]
          exact .task spec member named.symm
        · rw [frame x task, addTasks_job values task]
          exact .kept
    all_goals exact .kept

theorem discard_fate (fate : CommitFate s env given key j x (t.job x)) :
    CommitFate s env given key j x ((t.discard given).job x) := by
  rw [job_discard]
  by_cases same : x = given
  · rw [same, Function.update_self]
    exact .discarded (by simp)
  · rwa [Function.update_of_ne same]

theorem commit_fate (found : s.job key = some j) (x : String) :
    CommitFate s env given key j x ((s.commit env given key j reply).server.job x) := by
  have array : CommitFate s env given key j x ((s.processJobArray env key j j.owner).1.job x) :=
    processJobArray_fate j.owner x
  rw [commit]
  split
  case h_1 outcome => rwa [outcome] at array
  case h_2 outcome => rw [outcome] at array; exact discard_fate array
  case h_3 outcome => rwa [outcome] at array
  case h_4 u outcome =>
    obtain rfl := processJobArray_single outcome
    rcases commitJobInstance_job env found j.owner with
      ⟨t, reason, done, job⟩ | ⟨t, dest, done, job⟩
    · simp only [done, reject, job_discard, job]
      by_cases gone : x = given
      · rw [gone, Function.update_self]
        exact .discarded (by simp)
      rw [Function.update_of_ne gone]
      by_cases same : x = key
      · rw [same, Function.update_self]
        exact .turnedAway fun equal => gone (same.trans equal.symm)
      · rw [Function.update_of_ne same]
        exact .kept
    · simp only [done, answer, job]
      by_cases same : x = key
      · rw [same, Function.update_self]
        exact .entered
      · rw [Function.update_of_ne same]
        exact .kept

end Commit

end Server

namespace Fate
variable {s s' t : Server} {env : Env} {step : Step} {key given : String} {j k : Job}

/-- A step that writes one entry of the manager. -/
theorem update (fate : Fate s env step key after) (job : s'.job = Function.update s.job key after)
    (x : String) : Fate s env step x (s'.job x) := by
  rw [job]
  by_cases same : x = key
  · rw [same, Function.update_self]
    exact fate
  · rw [Function.update_of_ne same]
    exact .kept

/-- A step that writes no entry of the manager. -/
theorem same (job : s'.job = s.job) (x : String) : Fate s env step x (s'.job x) := by
  rw [job]
  exact .kept

theorem committed (found : s.getJob env given = some (key, j)) (x : String) :
    Fate s env (.request (.commit given)) x ((s.commit env given key j reply).server.job x) := by
  have fate : CommitFate s env given key j x ((s.commit env given key j reply).server.job x) :=
    Server.commit_fate (Server.job_of_getJob found) x
  generalize (s.commit env given key j reply).server.job x = after at fate
  cases fate with
  | kept => exact .kept
  | discarded listed => exact .discarded (.commit found) listed
  | entered => exact .entered (.commit found)
  | turnedAway other => exact .turnedAway (.commit found) other
  | task spec member named => exact .task (.commit found) spec member named

theorem scriptCommitted (found : s.getJob env given = some (key, j)) (x : String) :
    Fate s env (.request (.jobScript given data true)) x
      ((((s.putJob key (j.setScript data)).onStore (·.saveJobScript given data)).commit env
        given key (j.setScript data) .ok).server.job x) := by
  generalize written : (s.putJob key (j.setScript data)).onStore (·.saveJobScript given data) = t
  have job : t.job = Function.update s.job key (some (j.setScript data)) := by
    rw [← written]
    exact Server.job_putJob
  have name : t.cfg = s.cfg := by rw [← written]; rfl
  have fate : CommitFate t env given key (j.setScript data) x
      ((t.commit env given key (j.setScript data) .ok).server.job x) :=
    Server.commit_fate (by rw [job, Function.update_self]) x
  generalize (t.commit env given key (j.setScript data) .ok).server.job x = after at fate
  cases fate with
  | kept => exact Fate.update (.scripted found) job x
  | discarded listed =>
    refine .discarded (.script found) ?_
    rwa [Server.tasksOf, name] at listed
  | entered => exact .entered (.script found)
  | turnedAway other => exact .turnedAway (.script found) other
  | task spec member named =>
    rw [name] at named ⊢
    exact .task (.script found) spec member named

end Fate

namespace Server
variable {s t : Server} {env : Env} {id key : String} {j : Job}

theorem job_delete : (s.delete env key j).job = Function.update s.job key none := by
  simp only [delete]
  split <;> simp [releaseNodeResources]

theorem job_finish : (s.finish env given key j done).job = Function.update s.job key (some done) := by
  simp only [finish]
  split <;> simp [releaseNodeResources]

theorem job_putObject (found : s.job key = some k) :
    (s.onJobs (·.putObject key j)).job = Function.update s.job key (some j) := by
  have present : key ∈ s.jobMgr.jobs := Assoc.mem_of_lookup found
  have put : s.onJobs (·.putObject key j) = s.putJob key j := by
    simp [onJobs, JobManager.putObject, present]
  rw [put, job_putJob]

theorem job_putObject_gone (gone : s.job key = none) :
    (s.onJobs (·.putObject key j)).job = s.job := by
  have absent : key ∉ s.jobMgr.jobs := AList.lookup_eq_none.mp gone
  funext x
  simp [job, JobManager.putObject, absent]

/-- A loop each round of which leaves a job as it was or makes a change that cannot be
made twice. -/
theorem foldl_job {Change : Job → Job → Prop} (final : ∀ j k l, Change j k → ¬ Change k l)
    (round : ∀ t id, (visit t id).job x = t.job x ∨
      ∃ j k, t.job x = some j ∧ Change j k ∧ (visit t id).job x = some k)
    (ids : List String) : (ids.foldl visit s).job x = s.job x ∨
      ∃ j k, s.job x = some j ∧ Change j k ∧ (ids.foldl visit s).job x = some k := by
  refine List.foldlRecOn (motive := fun t : Server => t.job x = s.job x ∨
    ∃ j k, s.job x = some j ∧ Change j k ∧ t.job x = some k) ids visit (.inl rfl) ?_
  rintro t (same | ⟨j, k, before, change, after⟩) id -
  · rcases round t id with kept | ⟨j, k, found, change, now⟩
    · exact .inl (kept.trans same)
    · exact .inr ⟨j, k, same ▸ found, change, now⟩
  · rcases round t id with kept | ⟨j', l, found, again, -⟩
    · exact .inr ⟨j, k, before, change, kept.trans after⟩
    · obtain rfl : k = j' := Option.some.inj (after.symm.trans found)
      exact absurd again (final j k l change)

def Requeued (env : Env) (j k : Job) : Prop :=
  j.state = .running ∧ k = (j.setExec "" 0).setState env.now .queued

theorem Requeued.final (j k l : Job) (first : Requeued env j k) : ¬ Requeued env k l := by
  obtain ⟨-, rfl⟩ := first
  rintro ⟨running, -⟩
  cases running

theorem job_requeue : (s.requeue env key j).job =
    Function.update s.job key (some ((j.setExec "" 0).setState env.now .queued)) := job_putJob

theorem requeue_round (job : t.job = s.job) (found : s.job key = some j)
    (running : j.state = .running) (x : String) : (t.requeue env key j).job x = s.job x ∨
      ∃ old k, s.job x = some old ∧ Requeued env old k ∧ (t.requeue env key j).job x = some k := by
  rw [job_requeue, job]
  by_cases same : x = key
  · subst same
    exact .inr ⟨j, _, found, ⟨running, rfl⟩, Function.update_self ..⟩
  · exact .inl (Function.update_of_ne same ..)

theorem checkNodes_job (s : Server) (env : Env) (x : String) : (s.checkNodes env).job x = s.job x ∨
    ∃ j k, s.job x = some j ∧ Requeued env j k ∧ (s.checkNodes env).job x = some k := by
  refine foldl_job Requeued.final (fun t name => ?_) _
  rw [checkNode]
  split
  · exact .inl rfl
  split
  · rw [requeueNodeJobs]
    split
    · exact .inl rfl
    split
    · exact .inl rfl
    -- The jobs of one node that went down.
    · refine foldl_job (s := t.onNode name _) Requeued.final (fun u jid => ?_) _
      rw [requeueFrom]
      split
      · exact .inl rfl
      case h_2 id j found =>
        split
        case isTrue running =>
          have released : (u.onNode name (·.releaseJob id j.requestedCPUs)).job = u.job := rfl
          exact requeue_round released (job_of_getJob found) running x
        · exact .inl rfl
  · exact .inl rfl

theorem reconcile_job (s : Server) (env : Env) (answer : String → Option (List String)) (x : String) :
    (s.reconcileRunningJobsWithMOMs env answer).job x = s.job x ∨
    ∃ j k, s.job x = some j ∧ Requeued env j k ∧
      (s.reconcileRunningJobsWithMOMs env answer).job x = some k := by
  refine foldl_job Requeued.final (fun t id => ?_) _
  rw [reconcile]
  split
  · exact .inl rfl
  case h_2 j found =>
    simp only
    split
    · exact .inl rfl
    case isFalse placed =>
      split
      · exact .inl rfl
      · split
        · exact .inl rfl
        · have running : j.state = .running := by
            by_contra other
            exact placed (.inl other)
          rw [requeueRecoveredJob]
          exact requeue_round job_releaseOn found running x

theorem promote_job (s : Server) (env : Env) (x : String) : (s.promoteWaitingJobs env).job x = s.job x ∨
    ∃ j k, s.job x = some j ∧ (j.state = .waiting ∧ Time.isZero j.executionTime = false ∧
      j.executionTime < env.now ∧ k = j.setState env.now .queued) ∧
      (s.promoteWaitingJobs env).job x = some k := by
  refine foldl_job ?_ (fun t id => ?_) _
  · rintro j k l ⟨-, -, -, rfl⟩ ⟨waiting, -⟩
    cases waiting
  · rw [promote]
    split
    · exact .inl rfl
    case h_2 j found =>
      split
      case isTrue due =>
        obtain ⟨waiting, set, past⟩ := due
        by_cases same : x = id
        · subst same
          refine .inr ⟨j, _, found, ⟨waiting, by simpa using set, past, rfl⟩, ?_⟩
          rw [job_updateJobState, Function.update_self, show t.job x = some j from found,
            Option.map_some]
        · exact .inl (by rw [job_updateJobState, Function.update_of_ne same])
      · exact .inl rfl

theorem cleanup_job (s : Server) (env : Env) (x : String) :
    (s.completedJobCleanup env).job x = s.job x ∨
    (∃ j, s.job x = some j ∧ j.state = .complete) ∧ (s.completedJobCleanup env).job x = none := by
  refine List.foldlRecOn (motive := fun t : Server => t.job x = s.job x ∨
    (∃ j, s.job x = some j ∧ j.state = .complete) ∧ t.job x = none) _ _ (.inl rfl)
    fun t kept id _ => ?_
  rw [purge]
  split
  · exact kept
  case h_2 j found =>
    split
    case isTrue old =>
      rw [job_removeJob]
      by_cases same : x = id
      · subst same
        rw [Function.update_self]
        rcases kept with here | gone
        · exact .inr ⟨⟨j, here.symm.trans found, old.1⟩, rfl⟩
        · exact .inr ⟨gone.1, rfl⟩
      · rwa [Function.update_of_ne same]
    · exact kept

theorem job_start : (s.start env key j names slots port).job = Function.update s.job key
    (some ((j.setExec (execHostOf names) port).setState env.now .running)) :=
  job_putJob.trans (by rw [job_assignOn])

theorem job_handleISMessage : (s.handleISMessage env msg).job = s.job := by
  rw [handleISMessage, job_onNodes]
  split
  · rfl
  · rw [tryAutoRegisterNode]
    split <;> rfl

end Server

/-- A dispatch writes through its pointer; the job may have left the manager. -/
theorem Fate.written {d : Dispatch} (object : (s.endDispatch d).jobMgr.object d.job = some j)
    (fate : s.job d.job = some j → Fate s env step d.job (some k)) (x : String) :
    Fate s env step x (((s.endDispatch d).onJobs (·.putObject d.job k)).job x) := by
  have table : (s.endDispatch d).job = s.job := rfl
  cases found : s.job d.job with
  | none => exact Fate.same ((Server.job_putObject_gone found).trans table) x
  | some held =>
    have same : held = j := by
      have lookup : s.jobMgr.jobs.lookup d.job = some held := found
      simpa [JobManager.object, lookup] using object
    exact Fate.update (fate (same ▸ found)) (Server.job_putObject (s := s.endDispatch d) found) x

/-- Every step leaves under each id what one of the cases of `Fate` says. -/
theorem Effect.fate (effect : Effect s env step s') (x : String) : Fate s env step x (s'.job x) := by
  cases effect with
  | unchanged | recounted | numbered | authenticated => exact .kept
  | submitted => exact Fate.update .submitted Server.job_addJob x
  | scripted found => exact Fate.update (.scripted found) Server.job_putJob x
  | scriptCommitted found => exact .scriptCommitted found x
  | committed found => exact .committed found x
  | deleted => exact Fate.update .deleted Server.job_delete x
  | held _ found idle => exact Fate.update (.held found idle) Server.job_putJob x
  | released _ found held => exact Fate.update (.released found held) Server.job_putJob x
  | cleared found other => exact Fate.update (.cleared found other) Server.job_putJob x
  | modified found => exact Fate.update (.modified found) Server.job_putJob x
  | moved _ found => exact Fate.update (.moved found) Server.job_putJob x
  | rerun found running => exact Fate.update (.rerun found (.inl running)) Server.job_putJob x
  | requeued found unplaced =>
    exact Fate.update (.rerun found (unplaced.imp_left And.left)) Server.job_putJob x
  | @ordered _ key₁ j₁ _ key₂ j₂ found₁ found₂ =>
    rw [Server.job_onStore, Server.job_onStore, Server.job_putJob]
    by_cases second : x = key₂
    · subst second
      rw [Function.update_self]
      exact .ordered (Server.job_of_getJob found₂)
    · rw [Function.update_of_ne second]
      exact Fate.update (.ordered (Server.job_of_getJob found₁)) Server.job_putJob x
  | failedDependency found => exact Fate.update (.commented found) Server.job_putJob x
  | started found ready => exact Fate.update (.started found ready (.inl rfl)) Server.job_start x
  | startedMulti found ready =>
    exact Fate.update (.started found ready (.inr ⟨_, _, rfl⟩)) Server.job_start x
  | ended found => exact Fate.update (.ended found) Server.job_finish x
  | managed done => exact Fate.same (Server.manage_jobs done).1 x
  | heard => exact Fate.same (Server.job_handleISMessage) x
  | @dispatched d session _ =>
    rw [Server.dispatchDone]
    split
    case h_1 object _ => exact Fate.written object .dispatched x
    case h_2 => exact .kept
  | @undone d pending =>
    rw [Server.dispatchFailed, Server.undoJobDispatch]
    split
    · exact .kept
    case h_2 j object =>
      have reverted : Fate s env _ x _ := Fate.written object (.undone pending) x
      simp only
      split <;> exact reverted
  | nodesChecked =>
    rcases s.checkNodes_job env x with kept | ⟨j, k, found, ⟨running, rfl⟩, now⟩
    · rw [kept]; exact .kept
    · rw [now]; exact .unreachable found running
  | promoted =>
    rcases s.promote_job env x with
      kept | ⟨j, k, found, ⟨waiting, set, past, rfl⟩, now⟩
    · rw [kept]; exact .kept
    · rw [now]; exact .promoted found waiting ⟨set, past⟩
  | cleaned =>
    rcases s.cleanup_job env x with kept | ⟨⟨j, found, complete⟩, gone⟩
    · rw [kept]; exact .kept
    · rw [gone]; exact .purged found complete
  | @reconciled answer =>
    rcases s.reconcile_job env answer x with
      kept | ⟨j, k, found, ⟨running, rfl⟩, now⟩
    · rw [kept]; exact .kept
    · rw [now]; exact .reconciled found running

namespace Job
variable {j : Job} {now : Time} {attrs : List Attr}

/-- The part of a job that decides whether it may start. -/
def standing (j : Job) : JobState × String × Time := (j.state, j.holdTypes, j.executionTime)

@[simp] theorem fillText_standing : (j.fillText field value).standing = j.standing := by
  rw [fillText]
  split <;> rfl

theorem deriveDefaults_standing (j : Job) (id : String) :
    (j.deriveDefaults id).standing = j.standing := by
  simp [deriveDefaults]

theorem setDefaultOutputPaths_standing (j : Job) (id host : String) :
    (j.setDefaultOutputPaths id host).standing = j.standing := by
  simp [setDefaultOutputPaths]

theorem entered_standing (j : Job) (env : Env) (id dest : String) :
    (j.entered env id dest).standing = (j.committedState env.now, j.holdTypes, j.executionTime) := by
  have kept := j.setDefaultOutputPaths_standing id env.hostname
  simp only [standing, Prod.mk.injEq] at kept
  have state : (((j.setDefaultOutputPaths id env.hostname).setState env.now .queued).setQueue
      dest).committedState env.now = j.committedState env.now := by
    simp only [committedState, setQueue, setState, kept]
  simp only [entered, state]
  split
  case isTrue queued => simp only [standing, setQueue, setState, kept, queued]
  case isFalse => simp only [standing, setQueue, setState, kept]

theorem applyAttr_hold (named : a.name = "Hold_Types") :
    applyAttr now j a = j.setHoldTypes now a.value := by
  have text : JobText.all.find? (·.attr = "Hold_Types") = none := by decide
  simp only [applyAttr, applySpecial, named, text]

theorem applyAttr_time (named : a.name = "Execution_Time") :
    applyAttr now j a = j.setExecutionTime now a.value := by
  have text : JobText.all.find? (·.attr = "Execution_Time") = none := by decide
  simp only [applyAttr, applySpecial, named, text]

theorem applyAttr_standing (hold : a.name ≠ "Hold_Types") (time : a.name ≠ "Execution_Time") :
    (applyAttr now j a).standing = j.standing := by
  rw [applyAttr]
  split
  · rfl
  · rw [applySpecial]
    split
    case h_4 name => exact absurd name hold
    case h_5 name => exact absurd name time
    case h_12 => split <;> rfl
    case h_13 => split <;> rfl
    all_goals rfl

/-- An attribute that leaves the state of a job alone at a time. -/
def KeepsState (now : Time) (a : Attr) : Prop :=
  (a.name = "Hold_Types" → ¬ holds a.value) ∧
    (a.name = "Execution_Time" → ∀ ts ∈ parseInt a.value, Time.ofUnix ts ≤ now)

instance (now : Time) (a : Attr) : Decidable (KeepsState now a) :=
  inferInstanceAs (Decidable (_ ∧ _))

theorem applyAttr_keepsState (keeps : KeepsState now a) : (applyAttr now j a).state = j.state := by
  by_cases hold : a.name = "Hold_Types"
  · rw [applyAttr_hold hold, setHoldTypes, if_neg (keeps.1 hold)]
    rfl
  by_cases time : a.name = "Execution_Time"
  · rw [applyAttr_time time, setExecutionTime]
    split
    · rfl
    case h_2 ts read =>
      rw [if_neg (not_lt.mpr (keeps.2 time ts read))]
  exact congrArg Prod.fst (applyAttr_standing hold time)

theorem applyJobAttrs_keepsState (keeps : ∀ a ∈ attrs, KeepsState now a) (id : String) :
    (j.applyJobAttrs id now attrs).state = j.state := by
  rw [applyJobAttrs]
  refine (congrArg Prod.fst (deriveDefaults_standing _ id)).trans ?_
  exact List.foldlRecOn (motive := fun k : Job => k.state = j.state) attrs _ rfl
    fun k same a member => (applyAttr_keepsState (keeps a member)).trans same

theorem state_of_applyJobAttrs {id : String} {state : JobState} (held : state ≠ .held)
    (waiting : state ≠ .waiting) (after : (j.applyJobAttrs id now attrs).state = state) :
    j.state = state := by
  have same : (attrs.foldl (applyAttr now) j).state = state :=
    (congrArg Prod.fst (deriveDefaults_standing _ id)).symm.trans after
  by_contra other
  exact List.foldlRecOn (motive := fun k : Job => k.state ≠ state) attrs _ other
    (fun k other a _ after => other (applyAttr_state held waiting after)) same

theorem running_of_applyJobAttrs {id : String}
    (running : (j.applyJobAttrs id now attrs).state = .running) : j.state = .running :=
  state_of_applyJobAttrs (by decide) (by decide) running

end Job

namespace Server
variable {s : Server} {env : Env} {id key given : String} {j : Job} {step : Step}

def finished (s : Server) (id : String) : Bool := (s.job id).any (·.state = .complete)

/-- The steps that leave a `Complete` job so, in the state before the step. -/
def LetsRest (s : Server) (env : Env) : Step → Prop
  | .request (.queueJob ..) => s.jobMgr.nextJobID < maxInt
  | .request (.commit given) | .request (.jobScript given _ true) =>
    ∀ found ∈ s.getJob env given, ∀ id ∈ found.1 :: s.tasksOf found.1 found.2, ¬ s.finished id
  | .request (.modifyJob given attrs) =>
    ∀ found ∈ s.getJob env given, s.finished found.1 → ∀ a ∈ attrs, Job.KeepsState env.now a
  | .dispatchFailed d => ¬ s.finished d.job
  | _ => True

theorem finished_of_job (found : s.job id = some j) (complete : j.state = .complete) :
    s.finished id := by
  simp [finished, found, complete]

theorem LetsRest.commits (rest : s.LetsRest env step) (commits : Commits s env given key step j) :
    ∀ id ∈ key :: s.tasksOf key j, ¬ s.finished id := by
  cases commits with
  | commit found => exact rest _ found
  | script found => exact rest _ found

theorem mem_tasksOf (spec : parseArraySpec j.jobArrayReq = .indices values) (member : i ∈ values) :
    arrayTaskID key s.cfg.serverName i ∈ s.tasksOf key j := by
  rw [tasksOf, spec]
  exact List.mem_map_of_mem member

end Server

/-- One step on a job that is `Complete`. -/
theorem Fate.complete {s : Server} (fate : Fate s env step key after) (rest : s.LetsRest env step)
    (fresh : s.NextIsNew) (complete : s.finished key) : ∀ k ∈ after, k.state = .complete := by
  obtain ⟨j, held, state⟩ := (Option.any_eq_true _ _).mp complete
  rw [decide_eq_true_eq] at state
  -- The steps that ask for another state find the job `Complete`.
  have here : ∀ {given k}, s.getJob env given = some (key, k) → k.state = .complete := by
    intro given k found
    obtain rfl : j = k := Option.some.inj (held.symm.trans (Server.job_of_getJob found))
    exact state
  have lookup : ∀ {k}, s.job key = some k → k.state = .complete := by
    intro k found
    obtain rfl : j = k := Option.some.inj (held.symm.trans found)
    exact state
  cases fate with
  | kept => simpa [held] using state
  | deleted | purged | discarded => simp
  | submitted => exact absurd (Assoc.mem_of_lookup held) fresh.1
  | scripted found => simpa using here found
  | entered commits => exact absurd complete (rest.commits commits _ (by simp))
  | turnedAway commits => exact absurd complete (rest.commits commits _ (by simp))
  | task commits spec member named =>
    refine absurd complete (rest.commits commits _ ?_)
    rw [named]
    exact List.mem_cons_of_mem _ (Server.mem_tasksOf spec member)
  | held found idle => simp [here found] at idle
  | released found held => simp [here found] at held
  | cleared found => simpa using here found
  | modified found =>
    simpa [Job.applyJobAttrs_keepsState (rest _ found complete)] using here found
  | moved found => simpa using here found
  | rerun found state => simp [here found] at state
  | ordered found => simpa using lookup found
  | commented found => simpa using here found
  | started found ready => simp [here found] at ready
  | ended => simp [Server.obituary]
  | dispatched found => simpa using lookup found
  | undone _ found => exact absurd complete rest
  | unreachable found running => simp [lookup found] at running
  | promoted found waiting => simp [lookup found] at waiting
  | reconciled found running => simp [lookup found] at running

instance (s : Server) (env : Env) (step : Step) : Decidable (s.LetsRest env step) := by
  induction step using Step.casesOn with
  | request r =>
    induction r using Request.casesOn with
    | jobScript _ _ finish =>
      induction finish using Bool.casesOn <;> unfold Server.LetsRest <;> infer_instance
    | _ => unfold Server.LetsRest; infer_instance
  | _ => unfold Server.LetsRest; infer_instance

/-- One step, with what it reads from outside. -/
abbrev Server.next (s : Server) (l : Env × Step) : Server := s.step l.1 l.2

theorem Server.Ahead.next {s : Server} (ahead : s.Ahead) (rest : s.LetsRest l.1 l.2) :
    (s.next l).Ahead := by
  refine ahead.step l.1 l.2 ?_
  unfold Step.HasRoom
  split
  case h_1 request => rwa [request] at rest
  case h_2 => trivial

/-- In every run from the empty server whose steps let `Complete` jobs rest, a job that
has become `Complete` is `Complete` for as long as the manager holds it. -/
theorem complete_stays_complete (name : String) (backend : Backend) (id : String)
    (before after : List (Env × Step))
    (rest : Along Server.next (fun s l => s.LetsRest l.1 l.2) (Server.new name { backend })
      (before ++ after))
    (complete : (before.foldl Server.next (Server.new name { backend })).finished id)
    (present : Along Server.next (fun s l => id ∈ (s.next l).jobMgr.jobs)
      (before.foldl Server.next (Server.new name { backend })) after) :
    ((before ++ after).foldl Server.next (Server.new name { backend })).finished id := by
  obtain ⟨first, later⟩ := Along.append.mp rest
  have ahead : (before.foldl Server.next (Server.new name { backend })).Ahead :=
    first.invariant (fun _ _ ahead rest => ahead.next rest) (.new name backend)
  have preserves : ∀ (s : Server) (l : Env × Step), s.finished id ∧ s.Ahead →
      s.LetsRest l.1 l.2 ∧ id ∈ (s.next l).jobMgr.jobs → (s.next l).finished id ∧ (s.next l).Ahead := by
    rintro s l ⟨complete, ahead⟩ ⟨rest, member⟩
    refine ⟨?_, ahead.next rest⟩
    obtain ⟨number, numbered⟩ := ahead
    obtain ⟨k, found⟩ := Assoc.exists_lookup member
    have fate := (s.step_effect l.1 l.2).fate id
    exact Server.finished_of_job found (fate.complete rest numbered.nextIsNew complete k found)
  rw [List.foldl_append]
  exact ((later.and present).invariant preserves ⟨complete, ahead⟩).1

/-- A job is submitted, run and ended, and then other requests ask for it. -/
theorem complete_stays_complete_run :
    Along Server.next (fun s l => s.LetsRest l.1 l.2) (Server.new "server" {})
        (atOnce endedRun ++ atOnce [.holdJob "0", .rerunJob "0.server", .runJob "0.server" "n1"]) ∧
      (fromEmpty (atOnce endedRun)).finished "0.server" = true ∧
      ((atOnce endedRun ++ atOnce [.holdJob "0", .rerunJob "0.server", .runJob "0.server" "n1"]).foldl
        Server.next (Server.new "server" {})).finished "0.server" = true :=
  have rest : Along Server.next (fun s l => s.LetsRest l.1 l.2) (Server.new "server" {})
      (atOnce endedRun ++ atOnce [.holdJob "0", .rerunJob "0.server", .runJob "0.server" "n1"]) := by
    decide +kernel
  have complete : (fromEmpty (atOnce endedRun)).finished "0.server" = true := by decide +kernel
  ⟨rest, complete, complete_stays_complete "server" .file "0.server" _ _ rest complete
    (by decide +kernel)⟩

/-- The obituary of the job is in; then its dispatch reports that it failed. -/
def undoneRun : List (Env × Step) :=
  atOnce endedRun ++ [({ now := 2 }, .dispatchFailed { job := "0.server", node := "n1" })]

/-- `undoJobDispatch` puts a job that has ended back into its queue. -/
theorem failed_dispatch_revives_job :
    (fromEmpty (atOnce endedRun)).finished "0.server" = true ∧
      "0.server" ∈ (fromEmpty undoneRun).jobMgr.jobs ∧
      (fromEmpty undoneRun).finished "0.server" = false := by
  decide +kernel

end OpenTorque.Pbs
