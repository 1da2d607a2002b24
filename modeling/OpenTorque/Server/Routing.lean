import OpenTorque.Server.Limits

/-! Which queue a committed job names, and whether that queue has let it in. Only a
commit asks the gate of a queue; a move, an alteration and the commands on queues do not. -/
namespace OpenTorque.Pbs
open Transition

namespace Job
variable (j : Job) (env : Env) (id dest : String)

@[simp] theorem fillText_queue : (j.fillText field value).queue = j.queue := by
  unfold fillText
  split <;> rfl

@[simp] theorem turnedAway_queue : (j.turnedAway env id).queue = j.queue := by
  show (j.setDefaultOutputPaths id env.hostname).queue = j.queue
  simp [setDefaultOutputPaths]

@[simp] theorem entered_queue : (j.entered env id dest).queue = dest := by
  rw [entered]
  split <;> rfl

end Job

namespace Server
variable {s t : Server} {env : Env} {id key given dest owner name x : String} {j k : Job} {passed : Bool}

def queueOf (s : Server) (id : String) : Option String := (s.job id).map Job.queue

def isRoute (s : Server) (name : String) : Bool := (s.queueMgr.lookup name).any (·.type = .route)

def isExecution (s : Server) (name : String) : Bool :=
  (s.queueMgr.lookup name).any (·.type = .execution)

/-- Where `finalizeRoute` sends a job, and whether the gate of that queue accepts it. -/
def admission (s : Server) (id : String) (j : Job) (owner : String) : Option (String × Bool) :=
  match s.finalizeRoute id j owner with
  | .error _ => none
  | .ok dest => some (dest, (s.admits dest id j owner (s.isRoute j.queue)).isOk)

/-- The queue a commit of one job puts it into. -/
def gate (s : Server) (env : Env) (id owner : String) : Option (String × Bool) :=
  (s.job id).bind fun j =>
    let j := j.setDefaultOutputPaths id env.hostname
    ((s.putJob id j).updateJobState env id .queued).admission id (j.setState env.now .queued) owner

/-- The queues the tasks of an array are put into; a later commit counts. -/
def taskGates (env : Env) (owner : String) : Server → List String → String → Option (String × Bool)
  | _, [], _ => none
  | s, id :: ids, x =>
    (taskGates env owner (s.commitJobInstance env id owner).1 ids x).or
      (if x = id then s.gate env id owner else none)

/-- The queues a commit puts jobs into. -/
def commitGates (s : Server) (env : Env) (id : String) (j : Job) (x : String) :
    Option (String × Bool) :=
  match s.processJobArray env id j j.owner, parseArraySpec j.jobArrayReq with
  | (_, .single), _ => if x = id then s.gate env id j.owner else none
  | (_, .expanded), .indices values =>
    taskGates env j.owner (values.foldl (addTask env id j) s)
      (values.map (arrayTaskID id s.cfg.serverName)) x
  | _, _ => none

/-- The queues a step puts jobs into, and whether their gates have accepted them. -/
def gates (s : Server) (l : Env × Step) (x : String) : Option (String × Bool) :=
  match l.2 with
  | .request (.commit given) => (s.getJob l.1 given).bind fun found =>
      s.commitGates l.1 found.1 found.2 x
  | .request (.jobScript given data true) => (s.getJob l.1 given).bind fun found =>
      ((s.putJob found.1 (found.2.setScript data)).onStore (·.saveJobScript given data)).commitGates
        l.1 found.1 (found.2.setScript data) x
  | _ => none

def submits (s : Server) (l : Env × Step) (x : String) : Bool :=
  match l.2 with
  | .request (.queueJob user dest attrs) =>
    (s.handle l.1 (.queueJob user dest attrs)).reply = .jobID replyChoiceQueue x
  | _ => false

end Server

/-- The committed jobs, and the queue whose gate accepted a job at the step at which its
queue was last written. -/
structure Admissions where
  committed : String → Bool := fun _ => false
  accepted : String → Option String := fun _ => none

namespace Server
variable {s t : Server} {env : Env} {id key given dest owner name x : String} {j k : Job} {passed : Bool}

def noteAdmissions (s : Server) (l : Env × Step) (h : Admissions) : Admissions where
  committed x := ((s.next l).job x).isSome &&
    ((s.gates l x).isSome || (h.committed x && !s.submits l x))
  accepted x :=
    match s.gates l x with
    | some (dest, passed) => if passed then some dest else none
    | none => if (s.next l).queueOf x = s.queueOf x then h.accepted x else none

/-- Every committed job names an execution queue whose gate accepted it when the job last
came to name it. -/
def Housed (s : Server) (h : Admissions) : Prop :=
  ∀ id j, s.job id = some j → h.committed id = true →
    s.isExecution j.queue = true ∧ h.accepted id = some j.queue

/-- The destinations of a route queue are execution queues, where they exist. -/
def RoutesToExecution (s : Server) (name : String) : Prop :=
  ∀ q ∈ s.queueMgr.lookup name, q.type = .route →
    ∀ dest ∈ q.list .routeDestin, ∀ d ∈ s.queueMgr.lookup dest, d.type = .execution

def Occupied (s : Server) (h : Admissions) (name : String) : Prop :=
  ∃ id ∈ s.jobMgr.jobs.keys, h.committed id = true ∧ s.queueOf id = some name

/-- A step that leaves committed jobs in queues that have accepted them. -/
def KeepsHoused (s : Server) (h : Admissions) (l : Env × Step) : Prop :=
  match l.2 with
  | .request (.commit given) | .request (.jobScript given _ true) =>
    ∀ found ∈ s.getJob l.1 given, s.RoutesToExecution found.2.queue
  | .request (.moveJob given dest) => ∀ found ∈ s.getJob l.1 given, h.committed found.1 = true →
      found.2.state ∉ [.running, .exiting, .complete, .provisioning] →
      Text.before '@' dest ∈ s.queueMgr → Text.before '@' dest = found.2.queue
  | .request (.modifyJob given attrs) => ∀ found ∈ s.getJob l.1 given, h.committed found.1 = true →
      ∀ a ∈ attrs, a.name = "queue" → a.value = found.2.queue
  | .request (.manager (.deleteQueue name)) => ¬ s.Occupied h name
  | .request (.manager (.setQueue name attrs)) => s.Occupied h name →
      ∀ a ∈ attrs, a.name = "queue_type" → (Text.equalFold a.value "Execution" || a.value = "e") = true
  | _ => True

section Gate

theorem admits_present (admitted : s.admits dest id j owner routed = .ok ()) :
    ∃ q, s.queueMgr.lookup dest = some q := by
  cases found : s.queueMgr.lookup dest with
  | none => simp [admits, found] at admitted
  | some q => exact ⟨q, rfl⟩

/-- A job stays where it is, or goes to a destination of its route queue that accepts it. -/
theorem routeJob_ok (routed : s.routeJob id j owner = .ok (dest, moved)) :
    (moved = false ∧ dest = j.queue ∧ s.isRoute j.queue = false) ∨
      (moved = true ∧ s.isRoute j.queue = true ∧ s.admits dest id j owner true = .ok () ∧
        ∃ q, s.queueMgr.lookup j.queue = some q ∧ q.type = .route ∧ dest ∈ q.list .routeDestin) := by
  unfold routeJob at routed
  split at routed
  case h_1 absent =>
    cases routed
    exact .inl ⟨rfl, rfl, by simp [isRoute, absent]⟩
  case h_2 q found =>
    split at routed
    case isTrue other =>
      cases routed
      exact .inl ⟨rfl, rfl, by simpa [isRoute, found] using other⟩
    case isFalse route =>
      have route : q.type = .route := not_not.mp route
      split at routed
      · cases routed
      split at routed
      case h_1 chosen =>
        cases routed
        have accepted := List.find?_some chosen
        have admitted : s.admits dest id j owner true = .ok () := by
          cases answer : s.admits dest id j owner true with
          | error reason => simp [answer, Except.isOk, Except.toBool] at accepted
          | ok => rfl
        exact .inr ⟨rfl, by simp [isRoute, found, route], admitted, q, found, route,
          List.mem_of_find?_eq_some chosen⟩
      · cases routed

theorem finalizeRoute_cases (chosen : s.finalizeRoute id j owner = .ok dest) :
    (dest = j.queue ∧ s.isRoute j.queue = false ∧ s.admits dest id j owner false = .ok ()) ∨
      (s.isRoute j.queue = true ∧ s.admits dest id j owner true = .ok () ∧
        ∃ q, s.queueMgr.lookup j.queue = some q ∧ q.type = .route ∧ dest ∈ q.list .routeDestin) := by
  rw [finalizeRoute] at chosen
  cases routed : s.routeJob id j owner with
  | error reason => simp [routed, bind, Except.bind] at chosen
  | ok target =>
    obtain ⟨name, moved⟩ := target
    simp only [routed, bind, Except.bind, pure, Except.pure] at chosen
    rcases routeJob_ok routed with ⟨rfl, rfl, direct⟩ | ⟨rfl, route⟩
    · cases admitted : s.admits j.queue id j owner false with
      | error reason => simp [admitted] at chosen
      | ok =>
        obtain rfl : j.queue = dest := by simpa [admitted] using chosen
        exact .inl ⟨rfl, direct, admitted⟩
    · obtain rfl : name = dest := by simpa using chosen
      exact .inr route

/-- What `finalizeRoute` promises of the queue it chooses. -/
theorem finalizeRoute_ok (chosen : s.finalizeRoute id j owner = .ok dest) :
    s.admits dest id j owner (s.isRoute j.queue) = .ok () ∧
      (s.RoutesToExecution j.queue → s.isExecution dest = true) := by
  rcases finalizeRoute_cases chosen with ⟨rfl, direct, admitted⟩ | ⟨route, admitted, q, found, type, listed⟩
  · obtain ⟨q, found⟩ := admits_present admitted
    refine ⟨direct ▸ admitted, fun _ => ?_⟩
    cases type : q.type <;> simp_all [isRoute, isExecution]
  · obtain ⟨d, present⟩ := admits_present admitted
    refine ⟨route ▸ admitted, fun safe => ?_⟩
    simp [isExecution, present, safe q found type dest listed d present]

theorem gate_ok (gated : s.gate env id owner = some (dest, passed))
    (safe : ∀ queue, s.queueOf id = some queue → s.RoutesToExecution queue) :
    passed = true ∧ s.isExecution dest = true := by
  obtain ⟨j, found, admitted⟩ := Option.bind_eq_some_iff.mp gated
  have queue : ((j.setDefaultOutputPaths id env.hostname).setState env.now .queued).queue = j.queue :=
    j.turnedAway_queue env id
  simp only [admission] at admitted
  split at admitted
  · cases admitted
  case h_2 chosen =>
    obtain ⟨accepted, execution⟩ := finalizeRoute_ok chosen
    cases admitted
    rw [queue] at execution
    exact ⟨by rw [accepted]; rfl, execution (safe j.queue (by simp [queueOf, found]))⟩

theorem commitJobInstance_gate (env : Env) (found : s.job id = some j) (owner : String) :
    (s.gate env id owner = none ∧ (s.commitJobInstance env id owner).2 ≠ .ok () ∧
      (s.commitJobInstance env id owner).1.job =
        Function.update s.job id (some (j.turnedAway env id))) ∨
    ∃ dest passed, s.gate env id owner = some (dest, passed) ∧
      (s.commitJobInstance env id owner).1.job =
        Function.update s.job id (some (j.entered env id dest)) := by
  have held : s.jobMgr.jobs.lookup id = some j := found
  simp only [gate, found, Option.bind_some, admission, commitJobInstance, held]
  cases ((s.putJob id (j.setDefaultOutputPaths id env.hostname)).updateJobState env id .queued).finalizeRoute
      id ((j.setDefaultOutputPaths id env.hostname).setState env.now .queued) owner with
  | error reason => exact .inl ⟨rfl, by simp, by simp [Job.turnedAway]⟩
  | ok dest =>
    refine .inr ⟨dest, _, rfl, ?_⟩
    dsimp only
    rw [enterQueue, Job.entered]
    split <;> simp

theorem queueOf_commitJobInstance (s : Server) (env : Env) (id owner x : String) :
    (s.commitJobInstance env id owner).1.queueOf x =
      ((if x = id then s.gate env id owner else none).map (·.1)).or (s.queueOf x) := by
  cases found : s.job id with
  | none =>
    have gone : s.jobMgr.jobs.lookup id = none := found
    simp [commitJobInstance, gone, gate, found]
  | some j =>
    rcases commitJobInstance_gate env found owner with ⟨gated, -, job⟩ | ⟨dest, passed, gated, job⟩
    all_goals
      rw [queueOf, queueOf, job, gated]
      by_cases same : x = id
      · subst same
        simp [found]
      · simp [same]

theorem isExecution_eq (s : Server) (name : String) :
    s.isExecution name = (s.policy name).any (·.type = .execution) := by
  rw [isExecution, policy, Option.any_map]
  rfl

theorem routesToExecution_iff (s : Server) (name : String) : s.RoutesToExecution name ↔
    ∀ q ∈ s.policy name, q.type = .route →
      ∀ dest ∈ q.list .routeDestin, ∀ d ∈ s.policy dest, d.type = .execution := by
  simp only [RoutesToExecution, policy, Option.mem_map, forall_exists_index, and_imp,
    forall_apply_eq_imp_iff₂]
  rfl

theorem isExecution_congr (same : t.policy = s.policy) : t.isExecution = s.isExecution := by
  funext name
  rw [isExecution_eq, isExecution_eq, same]

theorem RoutesToExecution.congr (same : t.policy = s.policy) (safe : s.RoutesToExecution name) :
    t.RoutesToExecution name := by
  rw [routesToExecution_iff] at safe ⊢
  rwa [same]

theorem isExecution_safe (execution : s.isExecution name = true) : s.RoutesToExecution name := by
  intro q found route
  simp [isExecution, Option.mem_def.mp found, route] at execution

theorem taskGates_ok {ids : List String}
    (safe : ∀ id ∈ ids, ∀ queue, s.queueOf id = some queue → s.RoutesToExecution queue)
    (gated : taskGates env owner s ids x = some (dest, passed)) :
    passed = true ∧ s.isExecution dest = true := by
  induction ids generalizing s with
  | nil => cases gated
  | cons id ids ih =>
    have same : (s.commitJobInstance env id owner).1.policy = s.policy :=
      policy_path (.commitJobInstance s owner trivial)
    rw [taskGates, Option.or_eq_some_iff] at gated
    rcases gated with later | ⟨-, here⟩
    · rw [← isExecution_congr same]
      refine ih (fun other member queue named => ?_) later
      rw [queueOf_commitJobInstance, Option.or_eq_some_iff] at named
      rcases named with entered | ⟨-, before⟩
      · obtain ⟨⟨queue', passed'⟩, first, rfl⟩ := Option.map_eq_some_iff.mp entered
        split at first
        · have execution := (gate_ok first (safe id (by simp))).2
          exact (isExecution_safe execution).congr same
        · cases first
      · exact (safe other (by simp [member]) queue before).congr same
    · split at here
      · exact gate_ok here (safe id (by simp))
      · cases here

theorem queueOf_commitTasks {ids : List String} (ok : (commitTasks env owner s ids).2 = .ok ())
    (x : String) : (commitTasks env owner s ids).1.queueOf x =
      ((taskGates env owner s ids x).map (·.1)).or (s.queueOf x) := by
  induction ids generalizing s with
  | nil => rfl
  | cons id ids ih =>
    have first := queueOf_commitJobInstance s env id owner x
    rw [commitTasks] at ok ⊢
    rw [taskGates]
    split at ok
    · cases ok
    case h_2 t committed =>
      rw [committed] at first ⊢
      simp only at first ⊢
      rw [ih ok, first, Option.map_or, Option.or_assoc]

theorem taskGates_isSome {ids : List String} (ok : (commitTasks env owner s ids).2 = .ok ())
    (present : ∀ id ∈ ids, (s.queueOf id).isSome = true) (member : x ∈ ids) :
    (taskGates env owner s ids x).isSome = true := by
  induction ids generalizing s with
  | nil => cases member
  | cons id ids ih =>
    rw [commitTasks] at ok
    rw [taskGates, Option.isSome_or, Bool.or_eq_true]
    split at ok
    · cases ok
    case h_2 t committed =>
      by_cases later : x ∈ ids
      · left
        rw [committed]
        refine ih ok (fun other member => ?_) later
        have named := queueOf_commitJobInstance s env id owner other
        rw [committed] at named
        rw [named, Option.isSome_or, present other (by simp [member]), Bool.or_true]
      · right
        obtain rfl : x = id := by simpa [later] using member
        obtain ⟨queue, named⟩ := Option.isSome_iff_exists.mp (present x (by simp))
        obtain ⟨j, found, -⟩ := Option.map_eq_some_iff.mp named
        rcases commitJobInstance_gate env found owner with ⟨-, refused, -⟩ | ⟨dest, passed, gated, -⟩
        · rw [committed] at refused
          exact absurd rfl refused
        · simp [gated]

theorem queueOf_commitTasks_other {ids : List String} (other : x ∉ ids) :
    (commitTasks env owner s ids).1.queueOf x = s.queueOf x := by
  induction ids generalizing s with
  | nil => rfl
  | cons id ids ih =>
    have first := queueOf_commitJobInstance s env id owner x
    rw [List.mem_cons, not_or] at other
    rw [if_neg other.1, Option.map_none, Option.none_or] at first
    rw [commitTasks]
    split
    case h_1 committed => rwa [committed] at first
    case h_2 committed =>
      rw [committed] at first
      exact (ih other.2).trans first

theorem queueOf_discardAll (ids : List String) (x : String) :
    (ids.foldl discard s).queueOf x = if x ∈ ids then none else s.queueOf x := by
  rw [queueOf, job_discardAll]
  split <;> rfl

theorem queueOf_discard (id x : String) :
    (s.discard id).queueOf x = if x = id then none else s.queueOf x := by
  rw [queueOf, job_discard]
  by_cases same : x = id <;> simp [same, queueOf]

theorem queueOf_addTasks {values : List Int} (nodup : values.Nodup) (x : String) :
    (values.foldl (addTask env id j) s).queueOf x =
      if x ∈ values.map (arrayTaskID id s.cfg.serverName) then some j.queue else s.queueOf x := by
  rw [queueOf]
  split
  case isTrue task =>
    obtain ⟨i, member, rfl⟩ := List.mem_map.mp task
    rw [addTasks_clone values nodup member]
    rfl
  case isFalse other => rw [addTasks_job values other, queueOf]

/-- The outcomes of `processJobArray`, with the states it leaves. -/
theorem processJobArray_cases (s : Server) (env : Env) (id : String) (j : Job) (owner : String) :
    ((s.processJobArray env id j owner).1 = s ∧
      (s.processJobArray env id j owner).2 ≠ .expanded) ∨
    ∃ values : List Int, values.Nodup ∧ parseArraySpec j.jobArrayReq = .indices values ∧
      ((∃ reason, s.processJobArray env id j owner =
        ((values.map (arrayTaskID id s.cfg.serverName)).foldl discard
          (commitTasks env owner (values.foldl (addTask env id j) s)
            (values.map (arrayTaskID id s.cfg.serverName))).1, .rejected reason)) ∨
      ((commitTasks env owner (values.foldl (addTask env id j) s)
          (values.map (arrayTaskID id s.cfg.serverName))).2 = .ok () ∧
        s.processJobArray env id j owner =
          ((commitTasks env owner (values.foldl (addTask env id j) s)
            (values.map (arrayTaskID id s.cfg.serverName))).1.discard id, .expanded))) := by
  rw [processJobArray]
  split
  · exact .inl ⟨rfl, by simp⟩
  split
  · exact .inl ⟨rfl, by simp⟩
  · exact .inl ⟨rfl, by simp⟩
  · exact .inl ⟨rfl, by simp⟩
  case h_4 values _ spec =>
    refine .inr ⟨values, readArrayItems_nodup _ _ spec, spec, ?_⟩
    simp only
    split
    case h_1 committed =>
      rw [committed]
      exact .inl ⟨_, rfl⟩
    case h_2 committed =>
      rw [committed]
      exact .inr ⟨rfl, rfl⟩

/-- A commit removes a job, puts it into the queue of a gate or leaves it where it is. -/
theorem queueOf_commit (s : Server) (env : Env) (given key : String) (j : Job) (reply : Reply)
    (x : String) : (s.commit env given key j reply).server.queueOf x = none ∨
    (s.commit env given key j reply).server.queueOf x =
      ((s.commitGates env key j x).map (·.1)).or (s.queueOf x) := by
  rcases s.processJobArray_cases env key j j.owner with
    ⟨same, unexpanded⟩ | ⟨values, nodup, spec, ⟨reason, rejected⟩ | ⟨ok, expanded⟩⟩
  · generalize done : s.processJobArray env key j j.owner = outcome at same unexpanded
    obtain ⟨t, array⟩ := outcome
    obtain rfl : t = s := same
    cases array with
    | expanded => exact absurd rfl unexpanded
    | endless =>
      simp only [commit, commitGates, done, hang, Option.map_none, Option.none_or]
      exact .inr trivial
    | rejected reason =>
      simp only [commit, commitGates, done, reject, queueOf_discard, Option.map_none, Option.none_or]
      split
      · exact .inl rfl
      · exact .inr rfl
    | single =>
      have first := queueOf_commitJobInstance t env key j.owner x
      simp only [commit, commitGates, done]
      split
      case h_1 committed =>
        rw [committed] at first
        simp only [reject, queueOf_discard]
        split
        · exact .inl rfl
        · exact .inr first
      case h_2 committed =>
        rw [committed] at first
        exact .inr first
  -- A rejected array takes its tasks with it.
  · simp only [commit, commitGates, rejected, reject, queueOf_discard, queueOf_discardAll, spec,
      Option.map_none, Option.none_or]
    split
    · exact .inl rfl
    split
    · exact .inl rfl
    case isFalse other =>
      right
      rw [queueOf_commitTasks_other other, queueOf_addTasks nodup, if_neg other]
  · simp only [commit, commitGates, expanded, spec, answer, queueOf_discard]
    split
    · exact .inl rfl
    right
    rw [queueOf_commitTasks ok, queueOf_addTasks nodup]
    split
    case isTrue task =>
      have gated := taskGates_isSome ok (fun id member => by
        rw [queueOf_addTasks nodup, if_pos member]; rfl) task
      obtain ⟨gate, entered⟩ := Option.isSome_iff_exists.mp gated
      rw [entered]
      rfl
    · rfl

theorem commitGates_ok (found : s.job key = some j) (safe : s.RoutesToExecution j.queue)
    (gated : s.commitGates env key j x = some (dest, passed)) :
    passed = true ∧ s.isExecution dest = true := by
  rw [commitGates] at gated
  split at gated
  · split at gated
    · refine gate_ok gated fun queue named => ?_
      obtain rfl : j.queue = queue := by simpa [queueOf, found] using named
      exact safe
    · cases gated
  case h_2 values _ spec =>
    have nodup : values.Nodup := readArrayItems_nodup _ _ spec
    have same : (values.foldl (addTask env key j) s).policy = s.policy :=
      view_foldl values fun _ _ => rfl
    rw [← isExecution_congr same]
    refine taskGates_ok (fun id member queue named => ?_) gated
    rw [queueOf_addTasks nodup, if_pos member] at named
    obtain rfl := Option.some.inj named
    exact safe.congr same
  · cases gated

theorem queueOf_of_job (found : s.job x = some j) : s.queueOf x = some j.queue := by
  rw [queueOf, found, Option.map_some]

/-- A step that may put jobs into queues through their gates. -/
def Commit (step : Step) : Prop :=
  ∃ given, step = .request (.commit given) ∨ ∃ data, step = .request (.jobScript given data true)

theorem Commit.of_commits {step : Step} (commits : Commits s env given key step j) : Commit step := by
  cases commits with
  | commit => exact ⟨given, .inl rfl⟩
  | script => exact ⟨given, .inr ⟨_, rfl⟩⟩

theorem gates_none {l : Env × Step} (other : ¬ Commit l.2) : s.gates l x = none := by
  rw [gates]
  split
  case h_1 given is => exact absurd ⟨given, .inl is⟩ other
  case h_2 given data is => exact absurd ⟨given, .inr ⟨data, is⟩⟩ other
  case h_3 => rfl

theorem queueOf_next_commit {l : Env × Step} (commit : Commit l.2) (x : String) :
    (s.next l).queueOf x = none ∨
      (s.next l).queueOf x = ((s.gates l x).map (·.1)).or (s.queueOf x) := by
  obtain ⟨env, step⟩ := l
  obtain ⟨given, rfl | ⟨data, rfl⟩⟩ := commit
  · simp only [next, Server.step, handle, handleCommit, gates]
    cases found : s.getJob env given with
    | none => exact .inr rfl
    | some entry => exact queueOf_commit ..
  · simp only [next, Server.step, handle, handleJobScript, gates]
    cases found : s.getJob env given with
    | none => exact .inr rfl
    | some entry =>
      have scripted : ((s.putJob entry.1 (entry.2.setScript data)).onStore
          (·.saveJobScript given data)).queueOf x = s.queueOf x := by
        by_cases same : x = entry.1
        · subst same
          rw [queueOf_of_job (job_of_getJob found), queueOf]
          simp only [job_onStore, job_putJob, Function.update_self, Option.map_some]
          rfl
        · simp [queueOf, same]
      have committed := queueOf_commit ((s.putJob entry.1 (entry.2.setScript data)).onStore
        (·.saveJobScript given data)) env given entry.1 (entry.2.setScript data) .ok x
      rwa [scripted] at committed

theorem queueOf_next_queueJob {user dest : String} {attrs : List Attr} (x : String) :
    (s.next (env, .request (.queueJob user dest attrs))).queueOf x = s.queueOf x ∨
      s.submits (env, .request (.queueJob user dest attrs)) x = true := by
  simp only [next, Server.step, submits, handle, handleQueueJob]
  split
  · exact .inl rfl
  split
  · exact .inl rfl
  split
  · exact .inl rfl
  split
  · exact .inl rfl
  by_cases same : x = s.jobMgr.formatJobID
  · subst same
    exact .inr (by simp [answer])
  · left
    simp only [answer, queueOf, job_addJob, Function.update_of_ne same]
    rfl

theorem queueOf_next_moveJob (x : String) :
    (s.next (env, .request (.moveJob given dest))).queueOf x = s.queueOf x ∨
      ∃ j, s.getJob env given = some (x, j) ∧
        j.state ∉ [.running, .exiting, .complete, .provisioning] ∧
        Text.before '@' dest ∈ s.queueMgr ∧
        (s.next (env, .request (.moveJob given dest))).queueOf x = some (Text.before '@' dest) := by
  simp only [next, Server.step, handle, handleMoveJob]
  split
  · exact .inl rfl
  case h_2 key j found =>
    split
    · exact .inl rfl
    case isFalse present =>
      split
      · exact .inl rfl
      case isFalse idle =>
        split
        · exact .inl rfl
        by_cases same : x = key
        · subst same
          refine .inr ⟨j, found, idle, not_not.mp present, ?_⟩
          simp only [accept, answer, queueOf, job_onStore, job_onQueues, job_putJob,
            Function.update_self, Option.map_some]
          rfl
        · left
          simp [accept, answer, queueOf, same]

/-- What a step does to the queue a job names. -/
theorem queueOf_next (s : Server) (l : Env × Step) (x : String) :
    (s.next l).queueOf x = none ∨
    (s.next l).queueOf x = ((s.gates l x).map (·.1)).or (s.queueOf x) ∨
    s.submits l x = true ∨
    (∃ given attrs j, l.2 = .request (.modifyJob given attrs) ∧ s.getJob l.1 given = some (x, j) ∧
      (s.next l).queueOf x = some (j.applyJobAttrs x l.1.now attrs).queue) ∨
    ∃ given dest j, l.2 = .request (.moveJob given dest) ∧ s.getJob l.1 given = some (x, j) ∧
      j.state ∉ [.running, .exiting, .complete, .provisioning] ∧ Text.before '@' dest ∈ s.queueMgr ∧
      (s.next l).queueOf x = some (Text.before '@' dest) := by
  by_cases commit : Commit l.2
  · exact (queueOf_next_commit commit x).imp_right .inl
  rw [gates_none commit, Option.map_none, Option.none_or]
  obtain ⟨env, step⟩ := l
  have fate := (s.step_effect env step).fate x
  rw [next] at *
  generalize stepped : s.step env step = t at *
  generalize after : t.job x = result at fate
  have same : ∀ j k : Job, s.job x = some j → result = some k → k.queue = j.queue →
      t.queueOf x = s.queueOf x := by
    rintro j k found rfl queue
    rw [queueOf_of_job found, queueOf_of_job after, queue]
  cases fate with
  | kept => exact .inr (.inl (by rw [queueOf, queueOf, after]))
  | deleted | purged | discarded => exact .inl (by rw [queueOf, after]; rfl)
  | entered commits | turnedAway commits | task commits => exact absurd (.of_commits commits) commit
  | submitted =>
    subst stepped
    exact .inr ((queueOf_next_queueJob _).imp_right .inl)
  | scripted found => exact .inr (.inl (same _ _ (job_of_getJob found) rfl rfl))
  | held found | released found | cleared found | rerun found | commented found | ended found =>
    exact .inr (.inl (same _ _ (job_of_getJob found) rfl rfl))
  | ordered found | dispatched found | unreachable found | promoted found | reconciled found =>
    exact .inr (.inl (same _ _ found rfl rfl))
  | undone _ found => exact .inr (.inl (same _ _ found rfl rfl))
  | started found _ sized =>
    refine .inr (.inl (same _ _ (job_of_getJob found) rfl ?_))
    rcases sized with rfl | ⟨_, _, rfl⟩ <;> rfl
  | modified found =>
    exact .inr (.inr (.inr (.inl ⟨_, _, _, rfl, found, by rw [queueOf_of_job after]⟩)))
  | moved =>
    subst stepped
    rcases queueOf_next_moveJob x with kept | ⟨j, moved⟩
    · exact .inr (.inl kept)
    · exact .inr (.inr (.inr (.inr ⟨_, _, j, rfl, moved⟩)))

theorem gates_ok {l : Env × Step} {h : Admissions} (keeps : s.KeepsHoused h l)
    (gated : s.gates l x = some (dest, passed)) : passed = true ∧ s.isExecution dest = true := by
  obtain ⟨env, step⟩ := l
  have commit : Commit step := by
    by_contra other
    rw [gates_none other] at gated
    cases gated
  obtain ⟨given, rfl | ⟨data, rfl⟩⟩ := commit
  · obtain ⟨found, named, entered⟩ := Option.bind_eq_some_iff.mp gated
    exact commitGates_ok (job_of_getJob named) (keeps found named) entered
  · obtain ⟨found, named, entered⟩ := Option.bind_eq_some_iff.mp gated
    have safe : s.RoutesToExecution found.2.queue := keeps found named
    have held : ((s.putJob found.1 (found.2.setScript data)).onStore
        (·.saveJobScript given data)).job found.1 = some (found.2.setScript data) := by
      rw [job_onStore, job_putJob, Function.update_self]
    have same : ((s.putJob found.1 (found.2.setScript data)).onStore
        (·.saveJobScript given data)).policy = s.policy := rfl
    have entry := commitGates_ok held (safe.congr same) entered
    rwa [isExecution_congr same] at entry

theorem isExecution_onQueue (kept : ∀ q : Queue, q.type = .execution → (change q).type = .execution)
    (execution : s.isExecution name = true) : (s.onQueue x change).isExecution name = true := by
  rw [isExecution, Option.any_eq_true] at *
  obtain ⟨q, found, type⟩ := execution
  rw [onQueues_queueMgr, QueueManager.onQueue]
  split
  · exact ⟨q, found, type⟩
  case h_2 p held =>
    by_cases same : name = x
    · subst same
      obtain rfl : p = q := Option.some.inj (held.symm.trans found)
      exact ⟨change p, AList.lookup_insert _, by simpa using kept p (by simpa using type)⟩
    · exact ⟨q, by rwa [AList.lookup_insert_ne same], type⟩

theorem isExecution_saveQueue : (s.saveQueue env x).isExecution = s.isExecution := by
  rw [saveQueue]
  split <;> rfl

end Gate

end Server

namespace Queue

theorem applyAttr_type (q : Queue) (a : Attr)
    (named : a.name = "queue_type" → (Text.equalFold a.value "Execution" || a.value = "e") = true)
    (execution : q.type = .execution) : (q.applyAttr a).type = .execution := by
  unfold applyAttr
  split
  · exact execution
  · exact execution
  · split
    case h_1 is => rw [if_pos (named is)]
    all_goals first | exact execution | (split <;> exact execution)

theorem applyQueueAttrs_type (q : Queue) (attrs : List Attr)
    (named : ∀ a ∈ attrs, a.name = "queue_type" →
      (Text.equalFold a.value "Execution" || a.value = "e") = true)
    (execution : q.type = .execution) : (q.applyQueueAttrs attrs).type = .execution := by
  rw [applyQueueAttrs]
  refine List.foldlRecOn (motive := fun p : Queue => p.type = .execution) allLists _ ?_
    fun p type f _ => ?_
  · exact List.foldlRecOn (motive := fun p : Queue => p.type = .execution) attrs _ execution
      fun p type a member => p.applyAttr_type a (named a member) type
  · rw [applyList]
    split <;> exact type

end Queue

namespace Server
variable {s : Server} {h : Admissions} {l : Env × Step} {name x : String} {j k : Job}

/-- A queue that committed jobs name stays an execution queue. -/
theorem isExecution_next (keeps : s.KeepsHoused h l) (occupied : s.Occupied h name)
    (execution : s.isExecution name = true) : (s.next l).isExecution name = true := by
  by_cases managed : ∃ command, l.2 = .request (.manager command)
  case neg =>
    have same : (s.next l).policy = s.policy := policy_step fun command is => managed ⟨command, is⟩
    rwa [isExecution_congr same]
  case pos =>
    obtain ⟨env, step⟩ := l
    obtain ⟨command, rfl⟩ := managed
    simp only [next, Server.step, handle, handleManager]
    split
    · exact execution
    case h_2 t done =>
      show t.isExecution name = true
      cases command with
      | createQueue made attrs =>
        simp only [manage] at done
        split at done
        · cases done
        case isFalse fresh =>
          cases done
          have other : name ≠ made := by
            rintro rfl
            rw [isExecution, Option.any_eq_true] at execution
            obtain ⟨q, found, -⟩ := execution
            exact fresh (Assoc.mem_of_lookup found)
          rw [isExecution_saveQueue, isExecution, onQueues_queueMgr, AList.lookup_insert_ne other]
          exact execution
      | deleteQueue gone =>
        simp only [manage] at done
        split at done
        · cases done
          have other : name ≠ gone := by
            rintro rfl
            exact keeps occupied
          show ((s.queueMgr.erase gone).lookup name).any _ = true
          rw [AList.lookup_erase_ne other]
          exact execution
        · cases done
      | setQueue set attrs =>
        simp only [manage] at done
        split at done
        · cases done
          rw [isExecution_saveQueue]
          by_cases same : name = set
          · subst same
            exact isExecution_onQueue (fun q => q.applyQueueAttrs_type attrs (keeps occupied)) execution
          · show ((s.queueMgr.onQueue set (·.applyQueueAttrs attrs)).lookup name).any _ = true
            rw [QueueManager.onQueue]
            split
            · exact execution
            · rw [AList.lookup_insert_ne same]
              exact execution
        · cases done
      | unsetQueue set attrs =>
        simp only [manage] at done
        split at done
        · cases done
          rw [isExecution_saveQueue]
          exact isExecution_onQueue (fun q type => type) execution
        · cases done
      | createNode | setServer | unsetServer =>
        cases done
        exact execution
      | deleteNode | setNode =>
        simp only [manage] at done
        split at done
        · cases done
          exact execution
        · cases done
      | unsupported => cases done

/-- A committed job that no gate has let in by this step is in the queue it was in. -/
theorem queueOf_next_committed (keeps : s.KeepsHoused h l) (ungated : s.gates l x = none)
    (committed : h.committed x = true) (kept : s.submits l x = false)
    (after : (s.next l).job x = some k) : s.queueOf x = some k.queue := by
  have here := queueOf_of_job after
  rcases s.queueOf_next l x with gone | same | resubmitted | ⟨given, attrs, j, asked, found, altered⟩ |
    ⟨given, dest, j, asked, found, idle, present, moved⟩
  · rw [gone] at here
    cases here
  · rwa [ungated, Option.map_none, Option.none_or, here, eq_comm] at same
  · rw [kept] at resubmitted
    cases resubmitted
  · rw [KeepsHoused, asked] at keeps
    have queue : (j.applyJobAttrs x l.1.now attrs).queue = j.queue :=
      Job.applyJobAttrs_queue _ _ (keeps _ found committed)
    rw [queue, here] at altered
    rw [queueOf_of_job (job_of_getJob found), altered]
  · rw [KeepsHoused, asked] at keeps
    have queue : Text.before '@' dest = j.queue := keeps _ found committed idle present
    rw [queue, here] at moved
    rw [queueOf_of_job (job_of_getJob found), moved]

theorem Housed.next (housed : s.Housed h) (keeps : s.KeepsHoused h l) :
    (s.next l).Housed (s.noteAdmissions l h) := by
  intro x k after committed
  have here := queueOf_of_job after
  cases gated : s.gates l x with
  | some gate =>
    obtain ⟨dest, passed⟩ := gate
    obtain ⟨rfl, execution⟩ := gates_ok keeps gated
    have commit : Commit l.2 := by
      by_contra other
      rw [gates_none other] at gated
      cases gated
    have policies : (s.next l).policy = s.policy := by
      refine policy_step fun command managed => ?_
      obtain ⟨given, is | ⟨data, is⟩⟩ := commit <;> rw [is] at managed <;> cases managed
    obtain rfl : k.queue = dest := by
      rcases queueOf_next_commit commit x with gone | entered
      · rw [gone] at here
        cases here
      · rw [here, gated] at entered
        exact Option.some.inj entered
    refine ⟨by rwa [isExecution_congr policies], ?_⟩
    simp [noteAdmissions, gated]
  | none =>
    simp only [noteAdmissions, gated, Option.isSome_none, Bool.false_or, Bool.and_eq_true,
      Bool.not_eq_true'] at committed
    obtain ⟨-, before, kept⟩ := committed
    have named := queueOf_next_committed keeps gated before kept after
    obtain ⟨j, found, queue⟩ := Option.map_eq_some_iff.mp named
    obtain ⟨execution, accepted⟩ := housed x j found before
    rw [queue] at execution accepted
    have occupied : s.Occupied h k.queue :=
      ⟨x, AList.mem_keys.mpr (Assoc.mem_of_lookup found), before, named⟩
    refine ⟨isExecution_next keeps occupied execution, ?_⟩
    simp only [noteAdmissions, gated]
    rw [if_pos (here.trans named.symm), accepted]

instance (s : Server) (h : Admissions) (name : String) : Decidable (s.Occupied h name) :=
  inferInstanceAs (Decidable (∃ id ∈ _, _))

instance (s : Server) (name : String) : Decidable (s.RoutesToExecution name) :=
  inferInstanceAs (Decidable (∀ q ∈ _, _))

instance (s : Server) (h : Admissions) : (l : Env × Step) → Decidable (s.KeepsHoused h l) := by
  rintro ⟨env, step⟩
  induction step using Step.casesOn with
  | request r =>
    induction r using Request.casesOn with
    | jobScript _ _ finish =>
      induction finish using Bool.casesOn <;> unfold KeepsHoused <;> infer_instance
    | manager command =>
      induction command using Server.MgrCommand.casesOn <;> unfold KeepsHoused <;> infer_instance
    | _ => unfold KeepsHoused; infer_instance
  | _ => unfold KeepsHoused; infer_instance

end Server

/-- In every run from the empty server in which routes lead to execution queues and no
committed job is moved, altered into another queue or left in a queue that is deleted or
turned into a route, every committed job names an execution queue that has accepted it. -/
theorem committed_jobs_housed (name : String) (backend : Backend) (steps : List (Env × Step))
    (keeps : Along (watched Server.next Server.noteAdmissions) (fun w l => w.1.KeepsHoused w.2 l)
      (Server.new name { backend }, {}) steps) :
    let w := steps.foldl (watched Server.next Server.noteAdmissions) (Server.new name { backend }, {})
    w.1.Housed w.2 :=
  keeps.invariant (I := fun w => w.1.Housed w.2) (fun _ _ housed met => housed.next met)
    (by simp [Server.Housed])

def withAdmissions (steps : List (Env × Step)) : Server × Admissions :=
  steps.foldl (watched Server.next Server.noteAdmissions) (Server.new "server" {}, {})

/-- A job is submitted to a route and altered after its commit. -/
def routedJob : List (Env × Step) :=
  atOnce [.manager (.createQueue "batch" []),
    .manager (.createQueue "entry" [{ name := "queue_type", value := "Route" },
      { name := "route_destinations", value := "batch" }]),
    .queueJob "alice@host" "entry" [], .commit "0.server",
    .modifyJob "0.server" [{ name := "Priority", value := "5" }]]

theorem committed_jobs_housed_routed :
    ((withAdmissions routedJob).2.committed "0.server" = true ∧
      (withAdmissions routedJob).1.queueOf "0.server" = some "batch") ∧
      (withAdmissions routedJob).1.Housed (withAdmissions routedJob).2 :=
  ⟨by decide +kernel, committed_jobs_housed "server" .file routedJob (by decide +kernel)⟩

/-- A queue is deleted while a committed job is queued in it. -/
def queueDeleted : List (Env × Step) :=
  atOnce [.manager (.createQueue "batch" []), .queueJob "alice@host" "batch" [],
    .commit "0.server", .manager (.deleteQueue "batch")]

/-- The job stays `Queued` in a queue that does not exist. -/
theorem deleted_queue_keeps_job :
    (withAdmissions queueDeleted).2.committed "0.server" = true ∧
      ((withAdmissions queueDeleted).1.job "0.server").map (·.state) = some .queued ∧
      (withAdmissions queueDeleted).1.queueOf "0.server" = some "batch" ∧
      "batch" ∉ (withAdmissions queueDeleted).1.queueMgr := by
  decide +kernel

end OpenTorque.Pbs
