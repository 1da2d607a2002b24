import OpenTorque.Server.Routing

/-! The expansion of a job array. Each index becomes a job of its own that is built from the
master by a list of fields and then committed; when one of them is refused, the tasks are
taken back and the handler takes back the master. -/
namespace OpenTorque.Pbs
open Transition

theorem parseArraySpec_blank (blank : Text.trimSpace spec = "") : parseArraySpec spec = .indices [] := by
  have empty : Text.trim spec.toList = [] := by
    simpa [Text.trimSpace] using congrArg String.toList blank
  have whole : Text.split ',' spec = [spec] := Text.split_of_not_mem fun comma =>
    absurd (Text.spaces_of_trim_eq_nil empty _ comma) (by decide)
  simp [parseArraySpec, whole, readArrayItems, blank]

namespace Job
variable (j : Job) (env : Env) (id dest : String)

theorem fillText_text (field other : JobText) (value : String) :
    (j.fillText field value).text other =
      if other = field ∧ j.text field = "" then value else j.text other := by
  rw [fillText]
  by_cases empty : j.text field = ""
  · rw [if_pos empty]
    by_cases same : other = field
    · subst same
      simp [setText, empty]
    · simp [setText, same]
  · simp [empty]

theorem fillText_eq (field : JobText) (value : String) :
    j.fillText field value = { j with text := (j.fillText field value).text } := by
  rw [fillText]
  split <;> rfl

theorem setDefaultOutputPaths_eq : j.setDefaultOutputPaths id env.hostname =
    { j with text := (j.setDefaultOutputPaths id env.hostname).text } := by
  rw [setDefaultOutputPaths, fillText_eq, fillText_eq j]

theorem setState_of_pending {state : JobState} (now : Time)
    (pending : state ≠ .running ∧ state ≠ .complete) :
    j.setState now state = { j with
      state, substate := state.substate, mTime := now
      queueTime := if state = .queued ∧ Time.isZero j.queueTime then now else j.queueTime } := by
  simp [setState, pending]

/-- A field that `setDefaultOutputPaths` does not fill in. -/
def Given (field : JobText) : Prop := field ∉ [JobText.stdoutPath, .stderrPath] ∨ j.text field ≠ ""

/-- A commit changes the state of a job, its queue and the output paths that were missing. -/
theorem entered_eq : ∃ substate mTime queueTime text,
    j.entered env id dest =
      { j with queue := dest, state := j.committedState env.now, substate, mTime, queueTime, text } ∧
    ∀ field, j.Given field → text field = j.text field := by
  have texts : ∀ field, j.Given field →
      (j.setDefaultOutputPaths id env.hostname).text field = j.text field := by
    intro field given
    simp only [setDefaultOutputPaths, fillText_text]
    rcases given with other | filled
    · simp only [List.mem_cons, List.not_mem_nil, or_false, not_or] at other
      simp [other]
    · have unfilled : ∀ {f}, ¬ (field = f ∧ j.text f = "") := by
        rintro _ ⟨rfl, empty⟩
        exact filled empty
      simp [unfilled]
  have queued : (((j.setDefaultOutputPaths id env.hostname).setState env.now .queued).setQueue
      dest).committedState env.now = j.committedState env.now := by
    rw [setDefaultOutputPaths_eq]
    rfl
  simp only [entered, queued]
  rw [setDefaultOutputPaths_eq]
  generalize (j.setDefaultOutputPaths id env.hostname).text = text at texts
  split
  case isTrue state =>
    rw [state]
    exact ⟨_, _, _, text, rfl, texts⟩
  case isFalse =>
    have pending : j.committedState env.now ≠ .running ∧ j.committedState env.now ≠ .complete := by
      unfold committedState
      split_ifs <;> decide
    rw [setState_of_pending _ _ pending]
    exact ⟨_, _, _, text, rfl, texts⟩

end Job

/-- The queues a commit may put a job of that queue into. -/
def Server.Leads (s : Server) (queue dest : String) : Prop :=
  if s.isRoute queue then ∃ q ∈ s.queueMgr.lookup queue, dest ∈ q.list .routeDestin else dest = queue

/-- The task has what a client can set for a job as the master has it, apart from the array
request. A commit follows the route of a route queue and fills in missing output paths. -/
structure SameSubmission (s : Server) (master task : Job) : Prop where
  owner : task.owner = master.owner
  queue : s.Leads master.queue task.queue
  priority : task.priority = master.priority
  holdTypes : task.holdTypes = master.holdTypes
  executionTime : task.executionTime = master.executionTime
  dependList : task.dependList = master.dependList
  comment : task.comment = master.comment
  execHost : task.execHost = master.execHost
  execPort : task.execPort = master.execPort
  startTime : task.startTime = master.startTime
  resourceReq : task.resourceReq = master.resourceReq
  resourceUsed : task.resourceUsed = master.resourceUsed
  variableList : task.variableList = master.variableList
  attrs : task.attrs = master.attrs
  text : ∀ field, master.Given field → task.text field = master.text field

/-- The master is gone, each index is a committed job with the master's submission, and no
other job is touched. -/
structure Expanded (s : Server) (env : Env) (master : String) (j : Job) (values : List Int)
    (t : Server) : Prop where
  consumed : t.job master = none
  distinct : (values.map (arrayTaskID master s.cfg.serverName)).Nodup
  task : ∀ i ∈ values, ∃ k, t.job (arrayTaskID master s.cfg.serverName i) = some k ∧
    t.doc (arrayTaskID master s.cfg.serverName i) = some k.serialize ∧
    k.state = k.committedState env.now ∧ k.jobArrayReq = itoa i ∧ SameSubmission s j k
  others : ∀ x, x ≠ master → x ∉ values.map (arrayTaskID master s.cfg.serverName) →
    t.job x = s.job x

namespace Server
variable {s t : Server} {env : Env} {id key given dest owner x : String} {j k : Job}
  {values : List Int}

theorem leads_iff (s : Server) (queue dest : String) : s.Leads queue dest ↔
    if (s.policy queue).any (·.type = .route) then
      ∃ q ∈ s.policy queue, dest ∈ q.list .routeDestin else dest = queue := by
  rw [Leads, isRoute, policy, Option.any_map]
  simp only [Option.mem_map, exists_exists_and_eq_and]
  rfl

theorem Leads.congr (same : t.policy = s.policy) (leads : t.Leads queue dest) : s.Leads queue dest := by
  rw [leads_iff] at leads ⊢
  rwa [same] at leads

theorem finalizeRoute_leads (chosen : s.finalizeRoute id j owner = .ok dest) : s.Leads j.queue dest := by
  rw [Leads]
  rcases finalizeRoute_cases chosen with ⟨rfl, direct, -⟩ | ⟨route, -, q, found, -, listed⟩
  · simp [direct]
  · simp [route, found, listed]

/-- A commit that went through has put the job into a queue and written it down. -/
theorem commitJobInstance_entered (found : s.job id = some j)
    (done : s.commitJobInstance env id owner = (t, .ok ())) :
    ∃ dest, s.Leads j.queue dest ∧
      t.job = Function.update s.job id (some (j.entered env id dest)) ∧
      t.doc = Function.update s.doc id (some (j.entered env id dest).serialize) := by
  have held : s.jobMgr.jobs.lookup id = some j := found
  simp only [commitJobInstance, held] at done
  split at done
  · cases done
  case h_2 dest chosen =>
    cases done
    have leads := finalizeRoute_leads chosen
    rw [show ((j.setDefaultOutputPaths id env.hostname).setState env.now .queued).queue = j.queue from
      j.turnedAway_queue env id] at leads
    refine ⟨dest, leads, ?_, ?_⟩
    all_goals
      rw [enterQueue, Job.entered]
      split <;> simp

/-- All tasks of an accepted array have entered a queue and have been written down; no other
job is touched. -/
theorem commitTasks_entered {ids : List String} (nodup : ids.Nodup)
    (present : ∀ id ∈ ids, ∃ j, s.job id = some j) (done : commitTasks env owner s ids = (t, .ok ())) :
    (∀ x ∉ ids, t.job x = s.job x ∧ t.doc x = s.doc x) ∧
    ∀ id ∈ ids, ∀ j, s.job id = some j → ∃ dest, s.Leads j.queue dest ∧
      t.job id = some (j.entered env id dest) ∧ t.doc id = some (j.entered env id dest).serialize := by
  induction ids generalizing s with
  | nil =>
    cases done
    simp
  | cons id ids ih =>
    obtain ⟨j, found⟩ := present id (by simp)
    rw [List.nodup_cons] at nodup
    rw [commitTasks] at done
    split at done
    · cases done
    case h_2 u first =>
      obtain ⟨dest, leads, job, doc⟩ := commitJobInstance_entered found first
      have same : (s.commitJobInstance env id owner).1.policy = s.policy :=
        policy_path (.commitJobInstance s owner trivial)
      rw [first] at same
      have aside : ∀ x, x ≠ id → u.job x = s.job x ∧ u.doc x = s.doc x := by
        intro x other
        rw [job, doc, Function.update_of_ne other, Function.update_of_ne other]
        exact ⟨rfl, rfl⟩
      have distinct : ∀ x ∈ ids, x ≠ id := by
        rintro x member rfl
        exact nodup.1 member
      have still : ∀ x ∈ ids, ∃ j, u.job x = some j := by
        intro x member
        rw [(aside x (distinct x member)).1]
        exact present x (by simp [member])
      obtain ⟨frame, rest⟩ := ih nodup.2 still done
      constructor
      · intro x outside
        rw [List.mem_cons, not_or] at outside
        rw [(frame x outside.2).1, (frame x outside.2).2]
        exact aside x outside.1
      · intro x member k held
        rcases List.mem_cons.mp member with rfl | later
        · obtain rfl : j = k := Option.some.inj (found.symm.trans held)
          rw [(frame x nodup.1).1, (frame x nodup.1).2, job, doc, Function.update_self,
            Function.update_self]
          exact ⟨dest, leads, rfl, rfl⟩
        · rw [← (aside x (distinct x later)).1] at held
          obtain ⟨dest, leads, entered⟩ := rest x later k held
          exact ⟨dest, leads.congr same, entered⟩

theorem sameSubmission_iff (leads : s.Leads j.queue dest) (i : Int) (task : String) :
    SameSubmission s j ((j.cloneForArray i s.cfg.serverName env.now).entered env task dest) ↔
      j.executionTime = 0 ∧ j.startTime = 0 ∧ j.text .server = s.cfg.serverName := by
  obtain ⟨substate, mTime, queueTime, text, entered, given⟩ :=
    (j.cloneForArray i s.cfg.serverName env.now).entered_eq env task dest
  have server : text .server = s.cfg.serverName := by
    rw [given JobText.server (.inl (by decide))]
    simp [Job.cloneForArray, Job.setText]
  rw [entered]
  constructor
  · intro same
    exact ⟨same.executionTime.symm, same.startTime.symm,
      (same.text .server (.inl (by decide))).symm.trans server⟩
  · rintro ⟨undeferred, unstarted, named⟩
    have texts : (j.cloneForArray i s.cfg.serverName env.now).text = j.text := by
      rw [← named]
      exact Function.update_eq_self ..
    exact {
      owner := rfl, queue := leads, priority := rfl, holdTypes := rfl
      executionTime := undeferred.symm, dependList := rfl, comment := rfl, execHost := rfl
      execPort := rfl, startTime := unstarted.symm, resourceReq := rfl, resourceUsed := rfl
      variableList := rfl, attrs := rfl
      text := fun field set =>
        (given field (by rwa [Job.Given, texts])).trans (congrFun texts field) }

theorem processJobArray_indices (spec : parseArraySpec j.jobArrayReq = .indices values)
    (some : values ≠ []) : s.processJobArray env id j owner =
      match commitTasks env owner (values.foldl (addTask env id j) s)
        (values.map (arrayTaskID id s.cfg.serverName)) with
      | (t, .error reason) =>
        ((values.map (arrayTaskID id s.cfg.serverName)).foldl discard t, .rejected reason)
      | (t, .ok ()) => (t.discard id, .expanded) := by
  have filled : Text.trimSpace j.jobArrayReq ≠ "" := by
    intro blank
    rw [parseArraySpec_blank blank] at spec
    cases spec
    exact some rfl
  rw [processJobArray, if_neg filled, spec]
  cases values with
  | nil => exact absurd rfl some
  | cons => rfl

/-- Every task of an accepted array is the clone of the master, put into a queue. -/
theorem expanded_iff (nodup : values.Nodup) (some : values ≠ [])
    (done : commitTasks env owner (values.foldl (addTask env id j) s)
      (values.map (arrayTaskID id s.cfg.serverName)) = (t, .ok ())) :
    Expanded s env id j values (t.discard id) ↔
      j.executionTime = 0 ∧ j.startTime = 0 ∧ j.text .server = s.cfg.serverName := by
  have tasks : (values.map (arrayTaskID id s.cfg.serverName)).Nodup :=
    nodup.map (arrayTaskID_injective id _)
  obtain ⟨frame, entered⟩ := commitTasks_entered tasks (fun task => addTasks_present values) done
  have policy : (values.foldl (addTask env id j) s).policy = s.policy :=
    policy_path (.foldl values fun _ _ _ => .single (.add trivial))
  have each : ∀ i ∈ values, ∃ dest, s.Leads j.queue dest ∧
      (t.discard id).job (arrayTaskID id s.cfg.serverName i) = .some
        ((j.cloneForArray i s.cfg.serverName env.now).entered env
          (arrayTaskID id s.cfg.serverName i) dest) ∧
      (t.discard id).doc (arrayTaskID id s.cfg.serverName i) = .some
        ((j.cloneForArray i s.cfg.serverName env.now).entered env
          (arrayTaskID id s.cfg.serverName i) dest).serialize := by
    intro i member
    obtain ⟨dest, leads, job, doc⟩ := entered _ (List.mem_map_of_mem member) _
      (addTasks_clone values nodup member)
    refine ⟨dest, leads.congr policy, ?_, doc⟩
    rw [job_discard, Function.update_of_ne (arrayTaskID_ne id _ i), job]
  constructor
  · intro expanded
    obtain ⟨i, member⟩ := List.exists_mem_of_ne_nil _ some
    obtain ⟨dest, leads, job, -⟩ := each i member
    obtain ⟨k, there, -, -, -, same⟩ := expanded.task i member
    obtain rfl := Option.some.inj (job.symm.trans there)
    exact (sameSubmission_iff leads i _).mp same
  · intro plain
    refine ⟨by rw [job_discard, Function.update_self], tasks, fun i member => ?_, fun x master other => ?_⟩
    · obtain ⟨dest, leads, job, doc⟩ := each i member
      refine ⟨_, job, doc, ?_, ?_, (sameSubmission_iff leads i _).mpr plain⟩
      all_goals
        obtain ⟨_, _, _, _, equal, -⟩ := (j.cloneForArray i s.cfg.serverName env.now).entered_eq env
          (arrayTaskID id s.cfg.serverName i) dest
        rw [equal]
        rfl
    · rw [job_discard, Function.update_of_ne master, (frame x other).1, addTasks_job values other]

end Server

/-- The tasks of an accepted array have the master's submission exactly when it sets neither
an execution time nor a start time, and names the server as the configuration does. -/
theorem Server.array_expanded_iff (s : Server) (env : Env) (master owner : String) (j : Job)
    (values : List Int) (some : values ≠ [])
    (spec : parseArraySpec j.jobArrayReq = .indices values)
    (admitted : (commitTasks env owner (values.foldl (addTask env master j) s)
      (values.map (arrayTaskID master s.cfg.serverName))).2 = .ok ()) :
    ((s.processJobArray env master j owner).2 = .expanded ∧
        Expanded s env master j values (s.processJobArray env master j owner).1) ↔
      j.executionTime = 0 ∧ j.startTime = 0 ∧ j.text .server = s.cfg.serverName := by
  generalize done : commitTasks env owner (values.foldl (addTask env master j) s)
    (values.map (arrayTaskID master s.cfg.serverName)) = outcome at admitted
  obtain ⟨t, answer⟩ := outcome
  obtain rfl : answer = .ok () := admitted
  rw [processJobArray_indices spec some, done]
  simpa using expanded_iff (readArrayItems_nodup _ _ spec) some done

/-- An array of two tasks that waits to be committed. -/
def arrayRun (attrs : List Attr) : List Request :=
  [.manager (.createQueue "batch" []),
    .queueJob "alice@host" "batch" ({ name := "job_array_request", value := "1-2" } :: attrs)]

theorem array_expanded_of_plain_master :
    let s := fromEmpty (atOnce (arrayRun []))
    ∃ j, s.job "0.server" = some j ∧
      ((s.processJobArray { now := 2 } "0.server" j j.owner).2 = .expanded ∧
        Expanded s { now := 2 } "0.server" j [1, 2]
          (s.processJobArray { now := 2 } "0.server" j j.owner).1) := by
  intro s
  have facts : (s.job "0.server").any (fun j => parseArraySpec j.jobArrayReq = .indices [1, 2] ∧
      (Server.commitTasks { now := 2 } j.owner
        ([1, 2].foldl (Server.addTask { now := 2 } "0.server" j) s)
        ([1, 2].map (arrayTaskID "0.server" s.cfg.serverName))).2 = .ok () ∧
      j.executionTime = 0 ∧ j.startTime = 0 ∧ j.text .server = s.cfg.serverName) = true := by
    decide +kernel
  obtain ⟨j, found, holds⟩ := (Option.any_eq_true _ _).mp facts
  obtain ⟨spec, admitted, plain⟩ := of_decide_eq_true holds
  exact ⟨j, found, (Server.array_expanded_iff s { now := 2 } "0.server" j.owner j [1, 2] (by simp) spec
    admitted).mpr plain⟩

/-- The master is to wait for its execution time; its tasks do not have one and are ready to run. -/
theorem array_task_loses_execution_time :
    let s := fromEmpty (atOnce (arrayRun [{ name := "Execution_Time", value := "100" }]))
    ∃ j, s.job "0.server" = some j ∧ j.state = .waiting ∧
      (s.processJobArray { now := 2 } "0.server" j j.owner).2 = .expanded ∧
      ((s.processJobArray { now := 2 } "0.server" j j.owner).1.job "0[1].server").any
        (fun k => k.state = .queued ∧ k.executionTime = 0) = true ∧
      ¬ Expanded s { now := 2 } "0.server" j [1, 2]
          (s.processJobArray { now := 2 } "0.server" j j.owner).1 := by
  intro s
  have facts : (s.job "0.server").any (fun j => j.state = .waiting ∧ j.executionTime ≠ 0 ∧
      (s.processJobArray { now := 2 } "0.server" j j.owner).2 = .expanded ∧
      ((s.processJobArray { now := 2 } "0.server" j j.owner).1.job "0[1].server").any
        (fun k => k.state = .queued ∧ k.executionTime = 0) = true) = true := by
    decide +kernel
  obtain ⟨j, found, holds⟩ := (Option.any_eq_true _ _).mp facts
  obtain ⟨waiting, deferred, expanded, lost⟩ := of_decide_eq_true holds
  refine ⟨j, found, waiting, expanded, lost, fun whole => ?_⟩
  obtain ⟨k, there, -, -, -, same⟩ := whole.task 1 (by simp)
  obtain ⟨k', here, undeferred⟩ := (Option.any_eq_true _ _).mp lost
  obtain rfl : k' = k := Option.some.inj (here.symm.trans there)
  exact deferred (same.executionTime.symm.trans (of_decide_eq_true undeferred).2)

/-- What stays of the state while an array is taken back: nothing that was stored is taken
out of the store, apart from script files. -/
structure Server.Accrues (s t : Server) : Prop where
  serial : t.jobMgr.nextJobID = s.jobMgr.nextJobID
  backend : t.store.backend = s.store.backend
  others : (t.store.serverDB, t.store.nodes, t.store.queues) =
    (s.store.serverDB, s.store.nodes, s.store.queues)
  docs : ∀ x ∈ s.store.jobs, x ∈ t.store.jobs
  scripts : s.store.backend = .postgres → ∀ x ∈ s.store.scripts, x ∈ t.store.scripts

namespace Server.Accrues
variable {s t u : Server} {env : Env} {id : String} {j : Job}

theorem of_store (serial : t.jobMgr.nextJobID = s.jobMgr.nextJobID) (store : t.store = s.store) :
    s.Accrues t where
  serial := serial
  backend := store ▸ rfl
  others := store ▸ rfl
  docs _ there := store ▸ there
  scripts _ _ there := store ▸ there

theorem refl (s : Server) : s.Accrues s := of_store rfl rfl

theorem trans (first : s.Accrues t) (second : t.Accrues u) : s.Accrues u where
  serial := second.serial.trans first.serial
  backend := second.backend.trans first.backend
  others := second.others.trans first.others
  docs x there := second.docs x (first.docs x there)
  scripts database x there :=
    second.scripts (first.backend.trans database) x (first.scripts database x there)

theorem foldl {α : Type} {round : Server → α → Server} (items : List α)
    (each : ∀ (t : Server) (a : α), t.Accrues (round t a)) : s.Accrues (items.foldl round s) :=
  List.foldlRecOn (motive := s.Accrues) items _ (refl s) fun t before a _ => before.trans (each t a)

theorem mem_fill {backend : Backend} {m : Assoc String} {x : String} (there : x ∈ m) :
    x ∈ Store.fill backend m id := by
  rw [Store.fill]
  split
  · exact (AList.mem_insert _).mpr (.inr there)
  · exact there

theorem saveJob (s : Server) (id : String) (j : Job) : s.Accrues (s.saveJob id j) where
  serial := rfl
  backend := rfl
  others := rfl
  docs _ there := (AList.mem_insert _).mpr (.inr there)
  scripts _ _ there := mem_fill there

theorem saveJobScript (s : Server) (id script : String) :
    s.Accrues (s.onStore (·.saveJobScript id script)) where
  serial := rfl
  backend := rfl
  others := rfl
  docs _ there := mem_fill there
  scripts _ _ there := (AList.mem_insert _).mpr (.inr there)

theorem discard (s : Server) (id : String) : s.Accrues (s.discard id) where
  serial := JobManager.removeJob_nextJobID ..
  backend := rfl
  others := rfl
  docs _ := fun there => there
  scripts database x there := by
    have kept : (s.discard id).store.scripts = s.store.scripts :=
      if_neg (by rw [onJobs_store, database]; decide)
    rwa [kept]

theorem addTask (s : Server) (i : Int) : s.Accrues (Server.addTask env id j s i) := by
  have added : s.Accrues (s.onJobs (·.addJob (arrayTaskID id s.cfg.serverName i)
      (j.cloneForArray i s.cfg.serverName env.now))) := of_store rfl rfl
  exact added.trans (saveJobScript ..)

theorem enterQueue : s.Accrues (s.enterQueue env id j) := by
  rw [Server.enterQueue]
  refine .trans ?_ (saveJob _ id _)
  split
  · exact of_store rfl rfl
  · exact of_store (JobManager.updateJobState_nextJobID ..) rfl

theorem commitJobInstance (s : Server) (env : Env) (id owner : String) :
    s.Accrues (s.commitJobInstance env id owner).1 := by
  rw [Server.commitJobInstance]
  split
  · exact refl s
  · have queued : ∀ k, s.Accrues ((s.putJob id k).updateJobState env id .queued) := fun _ =>
      of_store (JobManager.updateJobState_nextJobID ..) rfl
    simp only
    split
    · exact queued _
    · exact (queued _).trans enterQueue

theorem commitTasks (env : Env) (owner : String) (ids : List String) (s : Server) :
    s.Accrues (Server.commitTasks env owner s ids).1 := by
  induction ids generalizing s with
  | nil => exact refl s
  | cons id ids ih =>
    have first := commitJobInstance s env id owner
    rw [Server.commitTasks]
    split
    case h_1 committed => rwa [committed] at first
    case h_2 committed =>
      rw [committed] at first
      exact first.trans (ih _)

end Server.Accrues

namespace Server
variable {s t u : Server} {env : Env} {id key given owner x : String} {j k : Job}
  {values : List Int}

def registered (s : Server) (env : Env) (id : String) (j : Job) : Server :=
  match parseArraySpec j.jobArrayReq with
  | .indices values => values.foldl (addTask env id j) s
  | .invalid _ | .endless => s

/-- The master and its tasks are gone from the manager, the queue counters and the store,
and nothing else has changed. -/
structure RolledBack (s t : Server) (master : String) (j : Job) : Prop where
  serial : t.jobMgr.nextJobID = s.jobMgr.nextJobID
  jobs : ∀ x, t.job x = if x = master then none else s.job x
  counts : t.jobMgr.stateCounts = s.jobMgr.stateCounts.decr j.state
  queues : t.queueMgr = s.queueMgr
  docs : ∀ x, t.doc x = if x = master then none else s.doc x
  scripts : ∀ x, t.script x = if x = master then none else s.script x
  others : (t.store.serverDB, t.store.nodes, t.store.queues) =
    (s.store.serverDB, s.store.nodes, s.store.queues)
  tasks : ∀ x ∈ s.tasksOf master j, t.job x = none ∧ t.doc x = none ∧ t.script x = none

/-- The client spelled the id as the manager does, the store has nothing that it will not be
asked to remove, and the first task is refused, so that none has been committed. -/
structure Undoable (s : Server) (env : Env) (given master : String) (j : Job) : Prop where
  spelled : given = master
  unwritten : s.doc master = none
  database : s.store.backend = .postgres → s.script master = none ∧ s.tasksOf master j = []
  fresh : ∀ x ∈ s.tasksOf master j, s.job x = none ∧ s.doc x = none ∧ s.script x = none
  refused : ∀ first ∈ (s.tasksOf master j).head?,
    (s.registered env master j).gate env first j.owner = none

section Rollback

theorem processJobArray_rejected (rejected : (s.processJobArray env id j owner).2 = .rejected reason) :
    ((s.processJobArray env id j owner).1 = s ∧ s.tasksOf id j = []) ∨
    ∃ values, values ≠ [] ∧ parseArraySpec j.jobArrayReq = .indices values ∧
      (s.processJobArray env id j owner).1 = (s.tasksOf id j).foldl discard
        (commitTasks env owner (s.registered env id j) (s.tasksOf id j)).1 := by
  cases spec : parseArraySpec j.jobArrayReq with
  | endless =>
    left
    rw [processJobArray, spec] at rejected ⊢
    split <;> simp [tasksOf, spec]
  | invalid item =>
    left
    rw [processJobArray, spec]
    split <;> simp [tasksOf, spec]
  | indices values =>
    by_cases none : values = []
    · left
      rw [processJobArray, spec, none]
      split <;> simp [tasksOf, spec, none]
    · right
      refine ⟨values, none, rfl, ?_⟩
      rw [processJobArray_indices spec none] at rejected ⊢
      simp only [tasksOf, registered, spec]
      split at rejected
      case h_1 done => rw [done]
      case h_2 => cases rejected

theorem job_rejected (rejected : (s.processJobArray env id j owner).2 = .rejected reason) (x : String) :
    (s.processJobArray env id j owner).1.job x = if x ∈ s.tasksOf id j then none else s.job x := by
  rcases processJobArray_rejected rejected with ⟨same, none⟩ | ⟨values, -, spec, after⟩
  · simp [same, none]
  · rw [after, job_discardAll]
    have tasks : s.tasksOf id j = values.map (arrayTaskID id s.cfg.serverName) := by rw [tasksOf, spec]
    have added : s.registered env id j = values.foldl (addTask env id j) s := by rw [registered, spec]
    rw [tasks, added]
    split
    case isTrue => rfl
    case isFalse other =>
      have nodup := (readArrayItems_nodup _ _ spec).map (arrayTaskID_injective id s.cfg.serverName)
      rw [(commitTasks_job env (fun _ => addTasks_present values) nodup owner).1 x other,
        addTasks_job values other]

theorem accrues_registered (s : Server) (env : Env) (id : String) (j : Job) :
    s.Accrues (s.registered env id j) := by
  rw [registered]
  split
  · exact .foldl _ Accrues.addTask
  · exact .refl s
  · exact .refl s

theorem registered_of_no_tasks (none : s.tasksOf id j = []) : s.registered env id j = s := by
  cases spec : parseArraySpec j.jobArrayReq with
  | indices values =>
    obtain rfl : values = [] := by simpa [tasksOf, spec] using none
    simp [registered, spec]
  | invalid item => simp [registered, spec]
  | endless => simp [registered, spec]

/-- Taking the tasks back removes no document, and from a database no script. -/
theorem accrues_rejected (rejected : (s.processJobArray env id j owner).2 = .rejected reason) :
    (s.registered env id j).Accrues (s.processJobArray env id j owner).1 := by
  rcases processJobArray_rejected rejected with ⟨same, none⟩ | ⟨values, -, spec, after⟩
  · rw [same, registered_of_no_tasks none]
    exact .refl s
  · rw [after]
    exact (Accrues.commitTasks env owner _ _).trans (.foldl _ Accrues.discard)

theorem script_addTasks (values : List Int)
    (listed : x ∈ s.store.scripts ∨ x ∈ values.map (arrayTaskID id s.cfg.serverName)) :
    x ∈ (values.foldl (addTask env id j) s).store.scripts := by
  induction values generalizing s with
  | nil => simpa using listed
  | cons i values ih =>
    have name : (addTask env id j s i).cfg.serverName = s.cfg.serverName := rfl
    have here : x ∈ (addTask env id j s i).store.scripts ↔
        x = arrayTaskID id s.cfg.serverName i ∨ x ∈ s.store.scripts := AList.mem_insert _
    refine ih ?_
    rw [here, name]
    rw [List.map_cons, List.mem_cons] at listed
    rcases listed with before | same | later
    · exact .inl (.inr before)
    · exact .inl (.inl same)
    · exact .inr later

theorem commitJobInstance_answer (env : Env) (owner : String) (found : s.job id = some j) :
    (s.gate env id owner = none ∧ ∃ reason, s.commitJobInstance env id owner =
      ((s.putJob id (j.setDefaultOutputPaths id env.hostname)).updateJobState env id .queued,
        .error reason)) ∨
    (s.gate env id owner ≠ none ∧ (s.commitJobInstance env id owner).2 = .ok ()) := by
  have held : s.jobMgr.jobs.lookup id = some j := found
  simp only [gate, found, Option.bind_some, admission, commitJobInstance, held]
  cases ((s.putJob id (j.setDefaultOutputPaths id env.hostname)).updateJobState env id
      .queued).finalizeRoute id ((j.setDefaultOutputPaths id env.hostname).setState env.now
        .queued) owner with
  | error reason => exact .inl ⟨rfl, reason, rfl⟩
  | ok dest => exact .inr ⟨by simp, rfl⟩

theorem doc_of_gate (found : s.job id = some j) (gated : s.gate env id owner ≠ none) :
    (s.commitJobInstance env id owner).2 = .ok () ∧
      id ∈ (s.commitJobInstance env id owner).1.store.jobs := by
  rcases commitJobInstance_answer env owner found with ⟨refused, -⟩ | ⟨-, ok⟩
  · exact absurd refused gated
  · refine ⟨ok, ?_⟩
    obtain ⟨dest, -, -, doc⟩ := commitJobInstance_entered found (Prod.ext rfl ok)
    exact Assoc.mem_of_lookup ((congrFun doc id).trans (Function.update_self ..))

theorem doc_commitTasks (found : s.job id = some j) (gated : s.gate env id owner ≠ none)
    (ids : List String) : id ∈ (commitTasks env owner s (id :: ids)).1.store.jobs := by
  obtain ⟨ok, written⟩ := doc_of_gate found gated
  rw [commitTasks]
  split
  case h_1 done =>
    rw [done] at ok
    cases ok
  case h_2 done =>
    rw [done] at written
    exact (Accrues.commitTasks env owner ids _).docs _ written

theorem not_mem_of_lookup_none {m : Assoc V} (missing : m.lookup x = none) : x ∉ m :=
  AList.lookup_eq_none.mp missing

theorem tasksOf_ne (listed : x ∈ s.tasksOf key j) : x ≠ key := by
  rw [tasksOf] at listed
  split at listed
  · obtain ⟨i, -, rfl⟩ := List.mem_map.mp listed
    exact arrayTaskID_ne key _ i
  · cases listed
  · cases listed

theorem registered_task (env : Env) (listed : x ∈ s.tasksOf key j) :
    x ∈ (s.registered env key j).store.scripts ∧
      ∃ i, (s.registered env key j).job x = some (j.cloneForArray i s.cfg.serverName env.now) := by
  cases spec : parseArraySpec j.jobArrayReq with
  | invalid | endless => simp [tasksOf, spec] at listed
  | indices values =>
    simp only [tasksOf, spec] at listed
    simp only [registered, spec]
    refine ⟨script_addTasks values (.inr listed), ?_⟩
    obtain ⟨i, member, rfl⟩ := List.mem_map.mp listed
    exact ⟨i, addTasks_clone values (readArrayItems_nodup _ _ spec) member⟩

theorem undoable_of_rolledBack (found : s.job key = some j)
    (rejected : (s.processJobArray env key j j.owner).2 = .rejected reason)
    (rolled : s.RolledBack ((s.processJobArray env key j j.owner).1.discard given) key j) :
    s.Undoable env given key j := by
  have after := (accrues_rejected rejected).trans (Accrues.discard _ given)
  have whole := (accrues_registered s env key j).trans after
  have master : ((s.processJobArray env key j j.owner).1.discard given).doc key = none := by
    rw [rolled.docs, if_pos rfl]
  refine ⟨?_, ?_, ?_, ?_, ?_⟩
  · by_contra other
    have gone := rolled.jobs key
    rw [job_discard, Function.update_of_ne (Ne.symm other), job_rejected rejected, if_pos rfl] at gone
    split at gone
    case isTrue listed => exact tasksOf_ne listed rfl
    case isFalse => simp [found] at gone
  · exact AList.lookup_eq_none.mpr fun there => not_mem_of_lookup_none master (whole.docs _ there)
  · intro database
    have kept : (s.registered env key j).store.backend = .postgres :=
      (accrues_registered s env key j).backend.trans database
    refine ⟨AList.lookup_eq_none.mpr fun there => ?_, List.eq_nil_iff_forall_not_mem.mpr fun x listed => ?_⟩
    · have gone := rolled.scripts key
      rw [if_pos rfl] at gone
      exact not_mem_of_lookup_none gone (whole.scripts database _ there)
    · exact not_mem_of_lookup_none (rolled.tasks x listed).2.2
        (after.scripts kept x (registered_task env listed).1)
  · intro x listed
    obtain ⟨job, doc, script⟩ := rolled.tasks x listed
    rw [rolled.jobs, if_neg (tasksOf_ne listed)] at job
    rw [rolled.docs, if_neg (tasksOf_ne listed)] at doc
    rw [rolled.scripts, if_neg (tasksOf_ne listed)] at script
    exact ⟨job, doc, script⟩
  · intro first leading
    by_contra gated
    obtain ⟨rest, tasks⟩ := List.head?_eq_some_iff.mp leading
    have listed : first ∈ s.tasksOf key j := by simp [tasks]
    rcases processJobArray_rejected rejected with ⟨-, none⟩ | ⟨values, -, -, taken⟩
    · simp [none] at listed
    · obtain ⟨i, clone⟩ := (registered_task env listed).2
      have written := doc_commitTasks clone gated rest
      rw [← tasks] at written
      have still := (Accrues.foldl (s.tasksOf key j) Accrues.discard).docs first written
      rw [← taken] at still
      exact not_mem_of_lookup_none (rolled.tasks first listed).2.1 ((Accrues.discard _ given).docs _ still)

theorem decr_incr (counts : StateCounts) (state : JobState) : (counts.incr state).decr state = counts := by
  rw [StateCounts.incr, StateCounts.decr]
  cases state.slot with
  | none => rfl
  | some i =>
    have back : (fun n : Nat => n - 1) ∘ (· + 1) = id := rfl
    simp only [List.modify_modify_eq, back, List.modify_id]

theorem counts_addTasks (values : List Int) :
    (values.foldl (addTask env id j) s).jobMgr.stateCounts =
      (fun counts => counts.incr .transit)^[values.length] s.jobMgr.stateCounts := by
  induction values generalizing s with
  | nil => rfl
  | cons i values ih =>
    rw [List.foldl_cons, ih, List.length_cons, Function.iterate_succ_apply]
    rfl

theorem counts_discard (found : s.job id = some j) :
    (s.discard id).jobMgr.stateCounts = s.jobMgr.stateCounts.decr j.state := by
  have held : s.jobMgr.jobs.lookup id = some j := found
  show (s.jobMgr.removeJob id).stateCounts = _
  rw [JobManager.removeJob, held]
  rfl

theorem counts_discardAll {ids : List String} (nodup : ids.Nodup)
    (all : ∀ id ∈ ids, ∃ j, s.job id = some j ∧ j.state = state) :
    (ids.foldl discard s).jobMgr.stateCounts =
      (fun counts => counts.decr state)^[ids.length] s.jobMgr.stateCounts := by
  induction ids generalizing s with
  | nil => rfl
  | cons id ids ih =>
    rw [List.nodup_cons] at nodup
    obtain ⟨j, found, rfl⟩ := all id (by simp)
    rw [List.foldl_cons, List.length_cons, Function.iterate_succ_apply, ← counts_discard found]
    refine ih nodup.2 fun x member => ?_
    have other : x ≠ id := by
      rintro rfl
      exact nodup.1 member
    rw [job_discard, Function.update_of_ne other]
    exact all x (by simp [member])

/-- The task that was turned away and those that were not tried leave no trace in the counters. -/
theorem counts_turnedAway {ids : List String} (nodup : (id :: ids).Nodup)
    (all : ∀ x ∈ id :: ids, ∃ j, s.job x = some j ∧ j.state = .transit)
    (added : s.jobMgr.stateCounts = (fun counts => counts.incr .transit)^[(id :: ids).length] counts)
    (same : k.state = .transit) :
    ((id :: ids).foldl discard ((s.putJob id k).updateJobState env id .queued)).jobMgr.stateCounts =
      counts := by
  have held : (s.putJob id k).jobMgr.jobs.lookup id = some k := AList.lookup_insert _
  have turned : ((s.putJob id k).updateJobState env id .queued).jobMgr.stateCounts =
      (s.jobMgr.stateCounts.decr .transit).incr .queued := by
    show ((s.putJob id k).jobMgr.updateJobState env.now id .queued).stateCounts = _
    rw [JobManager.updateJobState, held, ← same]
    rfl
  have there : ((s.putJob id k).updateJobState env id .queued).job id =
      some (k.setState env.now .queued) := by simp
  rw [List.nodup_cons] at nodup
  rw [List.foldl_cons, counts_discardAll nodup.2, counts_discard there, turned, Job.setState_state,
    decr_incr, ← Function.iterate_succ_apply, added]
  · exact Function.LeftInverse.iterate (fun counts => decr_incr counts .transit) _ counts
  · intro x member
    have other : x ≠ id := by
      rintro rfl
      exact nodup.1 member
    simpa [job_discard, other] using all x (by simp [member])

/-- On files the tasks add no documents, and scripts under their own names only. -/
theorem store_addTasks (values : List Int) (file : s.store.backend = .file) :
    (values.foldl (addTask env id j) s).store.jobs = s.store.jobs ∧
    ∀ x ∉ values.map (arrayTaskID id s.cfg.serverName),
      (values.foldl (addTask env id j) s).script x = s.script x := by
  induction values generalizing s with
  | nil => exact ⟨rfl, fun _ _ => rfl⟩
  | cons i values ih =>
    obtain ⟨jobs, scripts⟩ := ih (s := addTask env id j s i) file
    have kept : s.store.backend ≠ .postgres := by simp [file]
    refine ⟨jobs.trans (if_neg fun database => kept database.1), fun x other => ?_⟩
    rw [List.map_cons, List.mem_cons, not_or] at other
    exact (scripts x other.2).trans (AList.lookup_insert_ne other.1)

theorem script_discard (file : s.store.backend = .file) (id x : String) :
    (s.discard id).script x = if x = id then none else s.script x := by
  have erased : (s.discard id).store.scripts = s.store.scripts.erase id := if_pos file
  rw [script, erased, Assoc.lookup_erase_ite]
  rfl

theorem store_discardAll (ids : List String) (file : s.store.backend = .file) :
    (ids.foldl discard s).store.backend = .file ∧ (ids.foldl discard s).store.jobs = s.store.jobs ∧
      ∀ x, (ids.foldl discard s).script x = if x ∈ ids then none else s.script x := by
  induction ids generalizing s with
  | nil => exact ⟨file, rfl, fun _ => by simp⟩
  | cons id ids ih =>
    obtain ⟨backend, jobs, scripts⟩ := ih (s := s.discard id) file
    refine ⟨backend, jobs, fun x => ?_⟩
    rw [List.foldl_cons, scripts, script_discard file]
    by_cases same : x = id <;> simp [same]

theorem queueMgr_discardAll (ids : List String) : (ids.foldl discard s).queueMgr = s.queueMgr :=
  view_foldl ids fun _ _ => rfl

theorem tasksOf_nodup (s : Server) (id : String) (j : Job) : (s.tasksOf id j).Nodup := by
  rw [tasksOf]
  split
  case h_1 spec => exact (readArrayItems_nodup _ _ spec).map (arrayTaskID_injective id _)
  all_goals exact List.nodup_nil

/-- Registering the tasks changes nothing but the jobs, the count of jobs in transit and, on
files, the scripts of the tasks. -/
theorem registered_spec (s : Server) (env : Env) (id : String) (j : Job) :
    (s.registered env id j).queueMgr = s.queueMgr ∧
    (s.registered env id j).jobMgr.stateCounts =
      (fun counts => counts.incr .transit)^[(s.tasksOf id j).length] s.jobMgr.stateCounts ∧
    (s.store.backend = .file → (s.registered env id j).store.jobs = s.store.jobs ∧
      ∀ x ∉ s.tasksOf id j, (s.registered env id j).script x = s.script x) := by
  cases spec : parseArraySpec j.jobArrayReq with
  | indices values =>
    simp only [registered, tasksOf, spec, List.length_map]
    exact ⟨addTasks_queueMgr values, counts_addTasks values, store_addTasks values⟩
  | invalid | endless => simp [registered, tasksOf, spec]

/-- The state after the tasks have been taken back, in case the first one was refused. -/
theorem rejected_first (undoable : s.Undoable env given key j) (some : s.tasksOf key j ≠ [])
    (taken : t = (s.tasksOf key j).foldl discard
      (commitTasks env j.owner (s.registered env key j) (s.tasksOf key j)).1) :
    t.jobMgr.stateCounts = s.jobMgr.stateCounts ∧ t.queueMgr = s.queueMgr ∧
      t.store.backend = .file ∧ t.store.jobs = s.store.jobs ∧
      ∀ x, t.script x = if x ∈ s.tasksOf key j then none else s.script x := by
  have file : s.store.backend = .file := by
    cases backend : s.store.backend with
    | file => rfl
    | postgres => exact absurd (undoable.database backend).2 some
  obtain ⟨queues, counts, stored⟩ := registered_spec s env key j
  obtain ⟨jobs, scripts⟩ := stored file
  obtain ⟨first, rest, tasks⟩ := List.exists_cons_of_ne_nil some
  have all : ∀ x ∈ s.tasksOf key j, ∃ k, (s.registered env key j).job x = .some k ∧ k.state = .transit := by
    intro x listed
    obtain ⟨i, clone⟩ := (registered_task env listed).2
    exact ⟨_, clone, rfl⟩
  obtain ⟨k, found, transit⟩ := all first (by simp [tasks])
  have refused := undoable.refused first (by simp [tasks])
  rcases commitJobInstance_answer env j.owner found with ⟨-, reason, turned⟩ | ⟨gated, -⟩
  case inr => exact absurd refused gated
  have stopped : (commitTasks env j.owner (s.registered env key j) (first :: rest)).1 =
      ((s.registered env key j).putJob first (k.setDefaultOutputPaths first env.hostname)).updateJobState
        env first .queued := by rw [commitTasks, turned]
  have backend : (s.registered env key j).store.backend = .file :=
    (accrues_registered s env key j).backend.trans file
  subst taken
  refine ⟨?_, ?_, ?_⟩
  · have nodup := s.tasksOf_nodup key j
    rw [tasks] at nodup all counts ⊢
    rw [stopped]
    exact counts_turnedAway nodup all counts (by simp [Job.setDefaultOutputPaths, transit])
  · rw [tasks, stopped, queueMgr_discardAll]
    exact queues
  · rw [tasks, stopped, ← tasks]
    obtain ⟨same, docs, erased⟩ := store_discardAll (s := ((s.registered env key j).putJob first
      (k.setDefaultOutputPaths first env.hostname)).updateJobState env first .queued)
      (s.tasksOf key j) backend
    refine ⟨same, docs.trans jobs, fun x => (erased x).trans ?_⟩
    split
    · rfl
    case isFalse other => exact scripts x other

theorem settled_of_undoable (rejected : (s.processJobArray env key j j.owner).2 = .rejected reason)
    (undoable : s.Undoable env given key j) :
    (s.processJobArray env key j j.owner).1.jobMgr.stateCounts = s.jobMgr.stateCounts ∧
      (s.processJobArray env key j j.owner).1.queueMgr = s.queueMgr ∧
      (s.processJobArray env key j j.owner).1.store.jobs = s.store.jobs ∧
      ∀ x, ((s.processJobArray env key j j.owner).1.discard key).script x =
        if x = key then none else s.script x := by
  rcases processJobArray_rejected rejected with ⟨same, none⟩ | ⟨values, some, spec, taken⟩
  · rw [same]
    refine ⟨rfl, rfl, rfl, fun x => ?_⟩
    cases backend : s.store.backend with
    | file => exact script_discard backend key x
    | postgres =>
      have kept : (s.discard key).script x = s.script x :=
        congrArg (AList.lookup x) (if_neg (by simp [backend]))
      rw [kept]
      split
      case isTrue same => rw [same, (undoable.database backend).1]
      case isFalse => rfl
  · have tasks : s.tasksOf key j ≠ [] := by simpa [tasksOf, spec] using some
    obtain ⟨counts, queues, backend, docs, scripts⟩ := rejected_first undoable tasks taken
    refine ⟨counts, queues, docs, fun x => ?_⟩
    rw [script_discard backend, scripts]
    split
    · rfl
    split
    case isTrue listed => rw [(undoable.fresh x listed).2.2]
    case isFalse => rfl

/-- With nothing committed and nothing in the way, all is as if the array had not come. -/
theorem rolledBack_of_undoable (found : s.job key = some j)
    (rejected : (s.processJobArray env key j j.owner).2 = .rejected reason)
    (undoable : s.Undoable env given key j) :
    s.RolledBack ((s.processJobArray env key j j.owner).1.discard given) key j := by
  obtain rfl := undoable.spelled
  have whole := ((accrues_registered s env given j).trans (accrues_rejected rejected)).trans
    (Accrues.discard _ given)
  have gone := job_rejected rejected
  have settled := settled_of_undoable rejected undoable
  generalize (s.processJobArray env given j j.owner).1 = u at whole gone settled ⊢
  obtain ⟨counts, queues, docs, scripts⟩ := settled
  have jobs : ∀ x, u.job x = s.job x := by
    intro x
    rw [gone]
    split
    case isTrue listed => rw [(undoable.fresh x listed).1]
    case isFalse => rfl
  have rolled : ∀ x, (u.discard given).job x = if x = given then none else s.job x := by
    intro x
    rw [job_discard, Function.update_apply, jobs]
  have written : ∀ x, (u.discard given).doc x = if x = given then none else s.doc x := by
    intro x
    rw [show (u.discard given).doc x = s.doc x from congrArg (AList.lookup x) docs]
    split
    case isTrue same => rw [same, undoable.unwritten]
    case isFalse => rfl
  refine ⟨whole.serial, rolled, ?_, queues, written, scripts, whole.others, fun x listed => ?_⟩
  · rw [counts_discard ((jobs given).trans found), counts]
  · obtain ⟨job, doc, script⟩ := undoable.fresh x listed
    have other := tasksOf_ne listed
    rw [rolled, written, scripts, if_neg other, if_neg other, if_neg other]
    exact ⟨job, doc, script⟩

theorem commit_rejected (rejected : (s.processJobArray env key j j.owner).2 = .rejected reason)
    (reply : Reply) : (s.commit env given key j reply).server =
      (s.processJobArray env key j j.owner).1.discard given := by
  generalize outcome : s.processJobArray env key j j.owner = result at rejected
  obtain ⟨u, answer⟩ := result
  obtain rfl : answer = .rejected reason := rejected
  rw [commit, outcome]
  rfl

end Rollback

end Server

/-- The requests that commit a job: the state in which the commit runs, the id the client
gave, and the job. A script that comes with the request is stored before. -/
inductive Committing (s : Server) (env : Env) :
    Request → Server → String → String → Job → Prop where
  | commit (found : s.getJob env given = some (master, j)) :
      Committing s env (.commit given) s given master j
  | script (found : s.getJob env given = some (master, j)) :
      Committing s env (.jobScript given data true)
        ((s.putJob master (j.setScript data)).onStore (·.saveJobScript given data))
        given master (j.setScript data)

namespace Committing
variable {s u : Server} {env : Env} {request : Request} {given master : String} {j : Job}

theorem job (committing : Committing s env request u given master j) : u.job master = some j := by
  cases committing with
  | commit found => exact Server.job_of_getJob found
  | script found => simp

theorem handled (committing : Committing s env request u given master j) :
    ∃ reply, s.handle env request = u.commit env given master j reply := by
  cases committing with
  | commit found =>
    rw [Server.handle, Server.handleCommit, found]
    exact ⟨.jobID replyChoiceCommit given, rfl⟩
  | script found =>
    rw [Server.handle, Server.handleJobScript, found]
    exact ⟨.ok, if_pos rfl⟩

end Committing

/-- A rejected array leaves no trace exactly when there is nothing to undo that the handlers
do not undo: no task has been committed, no row has been added to a database, and the client
gave the id in full. -/
theorem Server.array_rolled_back_iff {s u : Server} {env : Env} {request : Request}
    {given master : String} {j : Job} (committing : Committing s env request u given master j)
    (rejected : (u.processJobArray env master j j.owner).2 = .rejected reason) :
    u.RolledBack (s.handle env request).server master j ↔ u.Undoable env given master j := by
  obtain ⟨reply, handled⟩ := committing.handled
  rw [handled, commit_rejected rejected]
  exact ⟨undoable_of_rolledBack committing.job rejected, rolledBack_of_undoable committing.job rejected⟩

/-- An array of two tasks in a queue that takes so many jobs, the array itself included. -/
def narrowRun (most : String) : List Request :=
  [.manager (.createQueue "batch" [{ name := "max_queuable", value := most }]),
    .queueJob "alice@host" "batch" [{ name := "job_array_request", value := "1-2" }]]

/-- The first task is refused, so there is nothing that the handler leaves behind. -/
theorem array_rolled_back_of_first_refused :
    let s := fromEmpty (atOnce (narrowRun "1"))
    ∃ j, s.job "0.server" = some j ∧ s.tasksOf "0.server" j = ["0[1].server", "0[2].server"] ∧
      s.RolledBack (s.handle { now := 2 } (.commit "0.server")).server "0.server" j := by
  intro s
  have facts : (s.getJob { now := 2 } "0.server").any (fun found => found.1 = "0.server" ∧
      (s.processJobArray { now := 2 } "0.server" found.2 found.2.owner).2 =
        .rejected "queue batch is at max_queuable (1)" ∧
      s.tasksOf "0.server" found.2 = ["0[1].server", "0[2].server"] ∧
      ((s.registered { now := 2 } "0.server" found.2).gate { now := 2 } "0[1].server"
        found.2.owner).isNone) = true := by decide +kernel
  have fresh : ∀ x ∈ ["0[1].server", "0[2].server"],
      (s.job x).isNone ∧ (s.doc x).isNone ∧ (s.script x).isNone := by decide +kernel
  simp only [Option.isNone_iff_eq_none] at fresh
  obtain ⟨⟨_, j⟩, found, holds⟩ := (Option.any_eq_true _ _).mp facts
  obtain ⟨rfl, rejected, tasks, (refused : Option.isNone _ = true)⟩ := of_decide_eq_true holds
  rw [Option.isNone_iff_eq_none] at refused
  refine ⟨j, Server.job_of_getJob found, tasks,
    (Server.array_rolled_back_iff (.commit found) rejected).mpr ⟨rfl, by decide +kernel, ?_, ?_, ?_⟩⟩
  · exact fun database => absurd database (by decide +kernel)
  · rwa [tasks]
  · simpa [tasks] using refused

/-- The second task is refused; the first stays in the counter of the queue and in the store. -/
theorem rejected_array_leaves_first_task :
    let s := fromEmpty (atOnce (narrowRun "2"))
    let t := (s.handle { now := 2 } (.commit "0.server")).server
    ∃ j, s.getJob { now := 2 } "0.server" = some ("0.server", j) ∧
      (∃ reason, (s.processJobArray { now := 2 } "0.server" j j.owner).2 = .rejected reason) ∧
      (t.queueMgr.lookup "batch").map (·.totalJobs) = some 1 ∧ (t.doc "0[1].server").isSome = true ∧
      ¬ s.RolledBack t "0.server" j := by
  intro s t
  have facts : (s.getJob { now := 2 } "0.server").any (fun found => found.1 = "0.server" ∧
      (s.processJobArray { now := 2 } "0.server" found.2 found.2.owner).2 =
        .rejected "queue batch is at max_queuable (2)" ∧
      "0[1].server" ∈ s.tasksOf "0.server" found.2) = true := by decide +kernel
  have left : (t.queueMgr.lookup "batch").map (·.totalJobs) = some 1 ∧
      (t.doc "0[1].server").isSome = true := by decide +kernel
  obtain ⟨⟨_, j⟩, found, holds⟩ := (Option.any_eq_true _ _).mp facts
  obtain ⟨rfl, rejected, task⟩ := of_decide_eq_true holds
  refine ⟨j, found, ⟨_, rejected⟩, left.1, left.2, fun rolled => ?_⟩
  simpa [(rolled.tasks _ task).2.1] using left.2

end OpenTorque.Pbs
