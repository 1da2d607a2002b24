import OpenTorque.Sched.World
import OpenTorque.Sched.Capacity
import OpenTorque.Server.Occupancy

/-! When a node that holds a job of an exclusive queue holds no other job. The scheduler
looks only at the queue of the job it places, so the result needs the exclusive jobs and
the others to be kept on different nodes by the other constraints. -/
namespace OpenTorque.Pbs

/-- Whether the access policy of a queue gives its jobs their nodes alone. -/
def Queue.exclusive (q : Queue) : Bool :=
  Text.toLower (Text.trimSpace (q.text .naccessPolicy)) ∈ Sched.exclusivePolicies

namespace Server
variable {s t u : Server} {env : Env} {id key given : String} {j : Job} {name : String}

def exclusiveQueue (s : Server) (name : String) : Bool :=
  (s.queueMgr.lookup name).any Queue.exclusive

def exclusive (s : Server) (id : String) : Bool := (s.job id).any fun j => s.exclusiveQueue j.queue

/-- A node that lists a job of an exclusive queue lists no other job. -/
def ExclusiveAlone (s : Server) : Prop :=
  ∀ name, ∀ id ∈ s.assigned name, s.exclusive id → ∀ other ∈ s.assigned name, other = id

/-- The states of a job that is not committed or is kept back. -/
def dormantStates : List JobState := [.transit, .held, .waiting]

/-- No job of the manager has the id, or the job is dormant. -/
def dormant (s : Server) (id : String) : Bool := (s.job id).all (·.state ∈ dormantStates)

theorem exclusiveQueue_onQueue (texts : ∀ q, (change q).text = q.text) :
    (s.onQueue name change).exclusiveQueue = s.exclusiveQueue := by
  funext x
  rw [exclusiveQueue, exclusiveQueue, onQueues_queueMgr, QueueManager.onQueue]
  cases found : s.queueMgr.lookup name with
  | none => rfl
  | some q =>
    simp only
    by_cases same : x = name
    · rw [same, AList.lookup_insert, found, Option.any_some, Option.any_some, Queue.exclusive,
        Queue.exclusive, texts]
    · rw [AList.lookup_insert_ne same]

theorem exclusiveQueue_aside : Aside exclusiveQueue :=
  ⟨fun _ _ => rfl, fun _ _ => rfl, fun _ _ _ => exclusiveQueue_onQueue fun _ => rfl⟩

/-- Neither the nodes nor the access policies have changed. -/
structure SameSites (s t : Server) : Prop where
  nodes : t.nodeMgr = s.nodeMgr
  queues : t.exclusiveQueue = s.exclusiveQueue

namespace SameSites

theorem onJobs (same : s.SameSites t) : s.SameSites (t.onJobs change) := ⟨same.nodes, same.queues⟩

theorem onStore (same : s.SameSites t) : s.SameSites (t.onStore change) := ⟨same.nodes, same.queues⟩

theorem commit (same : s.SameSites t) : s.SameSites (t.commit env given key j reply).server :=
  ⟨nodeMgr_aside.commit.trans same.nodes, exclusiveQueue_aside.commit.trans same.queues⟩

end SameSites

/-- A step that starts nothing: policies are as before, no node lists more jobs, and every
job that is not dormant keeps its queue and its request. -/
structure Calm (s t : Server) : Prop where
  queues : t.exclusiveQueue = s.exclusiveQueue
  fewer : ∀ name, ∀ id ∈ t.assigned name, id ∈ s.assigned name
  lasting : ∀ id j, s.job id = some j → j.state ∉ dormantStates → ∃ k, t.job id = some k ∧
    k.queue = j.queue ∧ k.resourceReq = j.resourceReq ∧ (k.state = j.state ∨ k.state = .complete)

theorem SameSites.calm (same : s.SameSites t)
    (lasting : ∀ id j, s.job id = some j → j.state ∉ dormantStates → ∃ k, t.job id = some k ∧
      k.queue = j.queue ∧ k.resourceReq = j.resourceReq ∧ (k.state = j.state ∨ k.state = .complete)) :
    s.Calm t :=
  ⟨same.queues, fun name id listed => by rwa [assigned, same.nodes] at listed, lasting⟩

/-- The steps of a submission that touch only jobs that are not queued yet. -/
def Fresh (s : Server) (env : Env) : Sched.Submission → Prop
  | .queueJob .. => s.jobMgr.nextJobID < maxInt
  | .commit given | .jobScript given _ true => ∀ found ∈ s.getJob env given,
      ∀ id ∈ found.1 :: given :: s.tasksOf found.1 found.2, s.dormant id
  | .jobScript _ _ false => True

theorem not_dormant (found : s.job id = some j) (awake : j.state ∉ dormantStates) :
    s.dormant id = false := by
  simp [dormant, found, awake]

theorem submit_lasting (fresh : s.NextIsNew) {part : Sched.Submission} (new : s.Fresh env part)
    (found : s.job id = some j) (awake : j.state ∉ dormantStates)
    (fate : Fate s env (.request part.request) id after) : ∃ k, after = some k ∧
      k.queue = j.queue ∧ k.resourceReq = j.resourceReq ∧ (k.state = j.state ∨ k.state = .complete) := by
  have asleep := not_dormant found awake
  have untouched : ∀ {given master m}, Commits s env given master (.request part.request) m →
      id ∉ master :: given :: s.tasksOf master m := by
    intro given master m commits listed
    have still : s.dormant id := by
      cases part with
      | queueJob => cases commits
      | commit =>
        cases commits with
        | commit looked => exact new _ looked id listed
      | jobScript given data auto =>
        cases commits with
        | script looked => exact new _ looked id listed
    simp [asleep] at still
  have same : ∀ {given m}, s.getJob env given = some (id, m) → m = j := fun looked =>
    Option.some.inj ((job_of_getJob looked).symm.trans found)
  generalize kind : Step.request part.request = taken at fate untouched
  cases fate with
  | kept => exact ⟨j, found, rfl, rfl, .inl rfl⟩
  | submitted => exact absurd (Assoc.mem_of_lookup found) fresh.1
  | scripted looked =>
    obtain rfl := same looked
    exact ⟨_, rfl, rfl, rfl, .inl rfl⟩
  | discarded commits listed => exact absurd listed (untouched commits)
  | entered commits | turnedAway commits => exact absurd (by simp) (untouched commits)
  | task commits spec member named =>
    refine absurd ?_ (untouched commits)
    rw [named]
    exact List.mem_cons_of_mem _ (List.mem_cons_of_mem _ (mem_tasksOf spec member))
  | _ => cases part <;> cases kind

theorem submit_calm (fresh : s.NextIsNew) {part : Sched.Submission} (new : s.Fresh env part) :
    s.Calm (s.handle env part.request).server := by
  have sites : s.SameSites (s.handle env part.request).server := by
    have start : s.SameSites s := ⟨rfl, rfl⟩
    have effect : Effect s env (.request part.request) (s.handle env part.request).server :=
      s.handle_effect env part.request
    generalize (s.handle env part.request).server = t at effect
    cases part with
    | queueJob =>
      cases effect with
      | unchanged => exact start
      | numbered => exact ⟨rfl, rfl⟩
      | submitted => exact ⟨rfl, rfl⟩
    | commit =>
      cases effect with
      | unchanged => exact start
      | committed => exact start.commit
    | jobScript =>
      cases effect with
      | unchanged => exact start
      | scripted => exact ⟨rfl, rfl⟩
      | scriptCommitted => exact (start.onJobs.onStore).commit
  exact sites.calm fun id j found awake => submit_lasting fresh new found awake
    ((s.handle_effect env part.request).fate id)

theorem exclusiveQueue_releaseNodeResources (s : Server) (env : Env) (execHost given : String) :
    (s.releaseNodeResources env execHost given).exclusiveQueue = s.exclusiveQueue :=
  view_foldl _ fun _ _ => rfl

theorem finish_calm (found : s.getJob env given = some (key, j)) (queue : done.queue = j.queue)
    (request : done.resourceReq = j.resourceReq) (complete : done.state = .complete) :
    s.Calm (s.finish env given key j done) where
  queues := by
    have kept : ∀ u : Server, (u.onStore (·.saveJob key done.serialize)).exclusiveQueue =
        u.exclusiveQueue := fun _ => rfl
    have counted : ∀ u : Server, (u.onQueue j.queue
        (·.transferJobState j.state .complete)).exclusiveQueue = u.exclusiveQueue :=
      fun _ => exclusiveQueue_onQueue fun _ => rfl
    simp only [finish, kept, counted]
    split
    · rfl
    · exact exclusiveQueue_releaseNodeResources ..
  fewer name id listed := Fewer.path (.finish trivial (mem_of_getJob found)) name listed
  lasting id k held awake := by
    rw [job_finish]
    by_cases same : id = key
    · subst same
      obtain rfl : k = j := Option.some.inj (held.symm.trans (job_of_getJob found))
      exact ⟨done, Function.update_self .., queue, request, .inr complete⟩
    · exact ⟨k, by rw [Function.update_of_ne same, held], rfl, rfl, .inl rfl⟩

theorem complete_calm (s : Server) (env : Env) (c : Sched.Completion) :
    s.Calm (s.handle env c.request).server := by
  have effect : Effect s env (.request c.request) (s.handle env c.request).server :=
    s.handle_effect env c.request
  generalize (s.handle env c.request).server = t at effect
  cases effect with
  | unchanged =>
    exact ⟨rfl, fun _ _ listed => listed, fun id j found _ => ⟨j, found, rfl, rfl, .inl rfl⟩⟩
  | ended found => exact finish_calm found rfl rfl rfl

/-- Every job that a node lists has been started. -/
def Placed (s : Server) : Prop :=
  ∀ name, ∀ id ∈ s.assigned name, ∃ j, s.job id = some j ∧ j.state ∈ [.running, .complete]

namespace Calm

theorem exclusive (calm : s.Calm t) (found : s.job id = some j) (awake : j.state ∉ dormantStates) :
    t.exclusive id = s.exclusive id := by
  obtain ⟨k, now, queue, -, -⟩ := calm.lasting id j found awake
  rw [Server.exclusive, Server.exclusive, now, found, Option.any_some, Option.any_some, queue,
    calm.queues]

theorem awake_of_started (started : j.state ∈ [.running, .complete]) : j.state ∉ dormantStates := by
  simp only [List.mem_cons, List.not_mem_nil, or_false] at started
  rcases started with state | state <;> simp [state, dormantStates]

theorem placed (calm : s.Calm t) (placed : s.Placed) : t.Placed := by
  intro name id listed
  obtain ⟨j, found, started⟩ := placed name id (calm.fewer name id listed)
  obtain ⟨k, now, -, -, state⟩ := calm.lasting id j found (awake_of_started started)
  refine ⟨k, now, ?_⟩
  rcases state with same | complete
  · rwa [same]
  · simp [complete]

theorem alone (calm : s.Calm t) (placed : s.Placed) (alone : s.ExclusiveAlone) : t.ExclusiveAlone := by
  intro name id listed exclusive other also
  obtain ⟨j, found, started⟩ := placed name id (calm.fewer name id listed)
  rw [calm.exclusive found (awake_of_started started)] at exclusive
  exact alone name id (calm.fewer name id listed) exclusive other (calm.fewer name other also)

end Calm

theorem Calm.refl (s : Server) : s.Calm s :=
  ⟨rfl, fun _ _ listed => listed, fun _ j found _ => ⟨j, found, rfl, rfl, .inl rfl⟩⟩

theorem calm_setComment (found : s.job id = some j) (comment : String) :
    s.Calm (s.putJob id (j.setComment comment)) where
  queues := rfl
  fewer _ _ listed := listed
  lasting key k held _ := by
    rw [job_putJob]
    by_cases same : key = id
    · subst same
      obtain rfl := Option.some.inj (found.symm.trans held)
      exact ⟨_, Function.update_self .., rfl, rfl, .inl rfl⟩
    · exact ⟨k, by rw [Function.update_of_ne same, held], rfl, rfl, .inl rfl⟩

/-- A step that puts one job on one node. -/
structure StartsOn (s t : Server) (id name : String) : Prop where
  queues : t.exclusiveQueue = s.exclusiveQueue
  here : t.assigned name = s.assigned name ++ [id]
  elsewhere : ∀ x, x ≠ name → t.assigned x = s.assigned x
  job : ∃ j k, s.job id = some j ∧ t.job = Function.update s.job id (some k) ∧
    k.queue = j.queue ∧ k.resourceReq = j.resourceReq ∧ k.state = .running

theorem startsOn_start (found : s.job id = some j) (known : name ∈ s.nodeMgr) (slots port : Int) :
    s.StartsOn (s.start env id j [name] slots port) id name := by
  have assigned : (s.start env id j [name] slots port).assigned =
      fun x => if x ∈ [name] then s.assigned x ++ [id] else s.assigned x :=
    assigned_assignOn (s := s) (by simpa using known) (List.nodup_singleton name)
  refine ⟨?_, by simp [assigned], fun x other => by simp [assigned, other], j, _, found, job_start,
    rfl, rfl, rfl⟩
  exact exclusiveQueue_onQueue (s := (s.assignOn [name] id slots).putJob id _) fun _ => rfl

namespace StartsOn

theorem exclusive (starts : s.StartsOn t id name) : t.exclusive = s.exclusive := by
  obtain ⟨j, k, found, after, queue, -, -⟩ := starts.job
  funext key
  rw [Server.exclusive, Server.exclusive, after, starts.queues]
  by_cases same : key = id
  · rw [same, Function.update_self, found, Option.any_some, Option.any_some, queue]
  · rw [Function.update_of_ne same]

theorem placed (starts : s.StartsOn t id name) (placed : s.Placed) : t.Placed := by
  obtain ⟨j, k, -, after, -, -, running⟩ := starts.job
  intro x key listed
  rw [after]
  by_cases same : key = id
  · exact ⟨k, by rw [same, Function.update_self], by simp [running]⟩
  · rw [Function.update_of_ne same]
    by_cases there : x = name
    · rw [there, starts.here, List.mem_append, List.mem_singleton] at listed
      exact placed name key (listed.resolve_right same)
    · rw [starts.elsewhere x there] at listed
      exact placed x key listed

/-- An exclusive job goes to an empty node, any other job to a node without one. -/
theorem alone (starts : s.StartsOn t id name) (alone : s.ExclusiveAlone)
    (empty : s.exclusive id = true → s.assigned name = [])
    (free : s.exclusive id = false → ∀ key ∈ s.assigned name, s.exclusive key = false) :
    t.ExclusiveAlone := by
  intro x key listed exclusive other also
  rw [starts.exclusive] at exclusive
  by_cases there : x = name
  · rw [there, starts.here] at listed also
    cases own : s.exclusive id with
    | true =>
      rw [empty own, List.nil_append, List.mem_singleton] at listed also
      exact also.trans listed.symm
    | false =>
      rw [List.mem_append, List.mem_singleton] at listed
      rcases listed with before | rfl
      · rw [free own key before] at exclusive
        cases exclusive
      · rw [own] at exclusive
        cases exclusive
  · rw [starts.elsewhere x there] at listed also
    exact alone x key listed exclusive other also

end StartsOn

end Server

end OpenTorque.Pbs

namespace OpenTorque.Sched
open Pbs Transition

section Reading
variable {job : Job} {id : String} {order : RangeOrder} {a : Attr} {name value : String}

/-- What a fold over attributes reads from those of one key, when they all say the same. -/
theorem foldl_told {S V : Type} {read : S → Attr → S} {field : S → V} {key : Attr → Prop}
    [DecidablePred key] {told : Attr → V}
    (reads : ∀ x a, field (read x a) = if key a then told a else field x) {attrs : List Attr} {x : S}
    {v : V} (agree : ∀ a ∈ attrs, key a → told a = v) (some : field x = v ∨ ∃ a ∈ attrs, key a) :
    field (attrs.foldl read x) = v := by
  refine foldl_settles attrs x (fun a member => ?_)
    (some.imp_right fun ⟨a, member, here⟩ => ⟨a, member, fun y => ?_⟩)
  · by_cases here : key a
    · exact .inl fun y => by rw [reads, if_pos here, agree a member here]
    · exact .inr fun y => by rw [reads, if_neg here]
  · rw [reads, if_pos here, agree a member here]

theorem mem_shown (member : a ∈ shown name value) : a = plain name value := by
  rw [shown] at member
  split at member
  · simp at member
  · simpa using member

theorem mem_shownIf {condition : Bool} (member : a ∈ shownIf condition name value) :
    a = plain name value := by
  rw [shownIf] at member
  split at member
  · simpa using member
  · simp at member

namespace JobInfo

theorem keyOf_shownTime {time : Time} (member : a ∈ Job.shownTime name time) : keyOf a = name := by
  rw [Job.shownTime] at member
  split at member
  · simp at member
  · rw [mem_shown member]
    rfl

theorem keyOf_shownText {fields : List JobText} (member : a ∈ job.shownText fields) :
    keyOf a ≠ "queue" ∧ keyOf a ≠ "job_state" := by
  obtain ⟨field, -, listed⟩ := List.mem_flatMap.mp member
  rw [mem_shown listed, show keyOf (plain field.attr (job.text field)) = field.attr from rfl]
  cases field <;> decide

theorem keyOf_shownResources {m : Assoc String} (member : a ∈ Job.shownResources order name m)
    (first : name.toList.head? = some c) : (keyOf a).toList.head? = some c := by
  obtain ⟨k, v, -, listed⟩ := mem_eachOf.mp member
  split at listed
  · simp at listed
  · rw [List.mem_singleton.mp listed, keyOf]
    split <;> simp [ofResource, first]

/-- The attributes of a job's status that tell its queue and its state. -/
theorem status_label (member : a ∈ (job.status id order).attrs) :
    (keyOf a = "queue" → a.value = job.queue) ∧ (keyOf a = "job_state" → a.value = job.state.name) := by
  have resource : ∀ {name : String} {m : Assoc String}, a ∈ Job.shownResources order name m →
      name.toList.head? = some 'R' ∨ name.toList.head? = some 'r' →
      keyOf a ≠ "queue" ∧ keyOf a ≠ "job_state" := by
    intro name m listed first
    constructor
    all_goals
      intro key
      rcases first with first | first
      all_goals
        have head := keyOf_shownResources listed first
        rw [key] at head
        exact absurd head (by decide)
  have apart : keyOf a ≠ "queue" ∧ keyOf a ≠ "job_state" → (keyOf a = "queue" → a.value = job.queue) ∧
      (keyOf a = "job_state" → a.value = job.state.name) := fun other =>
    ⟨fun key => absurd key other.1, fun key => absurd key other.2⟩
  simp only [Job.status, List.mem_append] at member
  casesm* _ ∨ _
  all_goals first
    | (obtain rfl := mem_shown member; simp [keyOf, plain])
    | (obtain rfl := mem_shownIf member; simp [keyOf, plain])
    | simp [keyOf_shownTime member]
    | exact apart (keyOf_shownText member)
    | exact apart (resource member (by decide))
    | (split at member; obtain rfl := mem_shown member; simp [keyOf, plain]; simp at member)

theorem parseJobInfo_label (job : Job) (id : String) (order : RangeOrder) :
    (parseJobInfo (job.status id order)).queue = job.queue ∧
      (parseJobInfo (job.status id order)).state = job.state.name := by
  have listed : ∀ {name value : String}, shown name value ⊆ (job.status id order).attrs →
      value = "" ∨ ∃ a ∈ (job.status id order).attrs, keyOf a = name := by
    intro name value within
    by_cases empty : value = ""
    · exact .inl empty
    · exact .inr ⟨plain name value, within (by simp [shown, empty]), rfl⟩
  constructor
  · refine foldl_told (fun j a => (j.reads a).queue) (fun a member => (status_label member).1) ?_
    exact (listed (fun a member => by simp [Job.status, member])).imp_left Eq.symm
  · refine foldl_told (fun j a => (j.reads a).state) (fun a member => (status_label member).2) ?_
    exact (listed (fun a member => by simp [Job.status, member])).imp_left Eq.symm

end JobInfo

namespace QueueInfo
variable {q : Queue}

theorem read_policy (q : QueueInfo) (a : Attr) : (q.read a).naccessPolicy =
    if a.name = "naccesspolicy" then Text.toLower (Text.trimSpace a.value) else q.naccessPolicy := by
  rw [read]
  split
  all_goals simp_all [setCloud]

theorem status_policy (member : a ∈ (q.status name order).attrs) (key : a.name = "naccesspolicy") :
    a.value = q.text .naccessPolicy := by
  have other : ∀ {name value : String}, a = plain name value → name ≠ "naccesspolicy" →
      a.value = q.text .naccessPolicy := by
    rintro name value rfl different
    exact absurd key different
  simp only [Queue.status, Queue.shownNumber, Queue.shownText, Queue.shownList, List.mem_append,
    List.mem_cons, List.not_mem_nil, or_false] at member
  casesm* _ ∨ _
  all_goals first
    | exact other member (by decide)
    | exact other (mem_shownIf member) (by decide)
    | exact other (mem_shown member) (by decide)
    | exact mem_shown member ▸ rfl
    | skip
  -- what remains is an entry of one of the limits
  obtain ⟨limits, -, each⟩ := List.mem_flatMap.mp member
  obtain ⟨resc, v, -, here⟩ := mem_eachOf.mp each
  rw [List.mem_singleton.mp here] at key
  cases limits <;> simp [ofResource, QueueLimits.attr] at key

theorem parseQueueInfo_policy (q : Queue) (name : String) (order : RangeOrder) :
    (parseQueueInfo (q.status name order)).naccessPolicy =
      Text.toLower (Text.trimSpace (q.text .naccessPolicy)) := by
  refine foldl_told read_policy (fun a member key => ?_) ?_
  · rw [status_policy member key]
  · by_cases empty : q.text .naccessPolicy = ""
    · rw [empty]
      exact .inl (by decide : "" = Text.toLower (Text.trimSpace ""))
    · refine .inr ⟨plain "naccesspolicy" (q.text .naccessPolicy), ?_, rfl⟩
      simp [Queue.status, Queue.shownText, shown, QueueText.attr, empty]

theorem parseQueueInfo_name (obj : StatusObject) : (parseQueueInfo obj).name = obj.name := by
  refine List.foldlRecOn (motive := fun q : QueueInfo => q.name = obj.name) obj.attrs _ rfl
    fun q same a _ => ?_
  rw [read]
  split <;> exact same

def exclusive (q : QueueInfo) : Bool := q.naccessPolicy ∈ exclusivePolicies

end QueueInfo

namespace NodeInfo
variable {F : Type} [GoFloat F]

theorem read_jobs (r : NodeInfo F × Bool) (a : Attr) : (read r a).1.jobs =
    if a.name = "jobs" ∧ a.value ≠ "" then Text.split ',' a.value else r.1.jobs := by
  obtain ⟨n, usedReported⟩ := r
  rw [read]
  split
  case h_3 => split <;> simp_all [setProcs]
  case h_4 => split <;> simp_all
  case h_6 => split <;> simp_all [setJobs]
  case h_12 =>
    rw [setGRes]
    split
    · simp_all
    · split <;> simp_all
  all_goals simp_all [setProcs]

theorem foldl_jobs (attrs : List Attr) (r : NodeInfo F × Bool)
    (some : r.1.jobs ≠ [] ∨ ∃ a ∈ attrs, a.name = "jobs" ∧ a.value ≠ "") :
    (attrs.foldl read r).1.jobs ≠ [] := by
  induction attrs generalizing r with
  | nil => simpa using some
  | cons a attrs ih =>
    refine ih (read r a) ?_
    rw [read_jobs]
    split
    case isTrue here => exact .inl (Text.split_ne_nil _ _)
    case isFalse other =>
      refine some.imp_right ?_
      rintro ⟨b, listed, here⟩
      rcases List.mem_cons.mp listed with rfl | later
      · exact absurd here other
      · exact ⟨b, later, here⟩

omit [GoFloat F] in
theorem settle_jobs (r : NodeInfo F × Bool) : (settle r).jobs = r.1.jobs := by
  obtain ⟨n, usedReported⟩ := r
  cases usedReported <;> rfl

end NodeInfo

theorem assigned_of_jobs_nil {F : Type} [GoFloat F] {s : Server} {env : Env} {n : Node}
    (named : ∀ id ∈ n.assignedJobs, id ≠ "")
    (none : (parseNodeInfo (s.nodeStatus env name n) : NodeInfo F).jobs = []) : n.assignedJobs = [] := by
  by_contra busy
  refine absurd none ?_
  rw [parseNodeInfo, NodeInfo.settle_jobs]
  refine NodeInfo.foldl_jobs _ _ (.inr ⟨plain "jobs" (Text.join ", " n.assignedJobs), ?_, rfl, ?_⟩)
  · simp [Server.nodeStatus, busy]
  · obtain ⟨id, member⟩ := List.exists_mem_of_ne_nil _ busy
    exact Text.join_ne_empty member (named id member)

section Snapshot
variable {v : View} {s : Server} {q : QueueInfo} {j : JobInfo}

theorem exclusiveQueue_counted (v : View) (s : Server) :
    (counted v s).exclusiveQueue = s.exclusiveQueue := by
  have refreshed : ∀ (t : Server) (name : String),
      (t.refreshQueueCounts name).exclusiveQueue = t.exclusiveQueue := fun t name =>
    Server.exclusiveQueue_onQueue fun _ => rfl
  exact List.foldlRecOn (motive := fun t : Server => t.exclusiveQueue = s.exclusiveQueue) _ _ rfl
    fun t same name _ => (refreshed t name).trans same

theorem exclusive_of_mem_queueInfos (member : q ∈ queueInfos v s) :
    q.exclusive = s.exclusiveQueue q.name := by
  obtain ⟨obj, listed, rfl⟩ := List.mem_map.mp member
  obtain ⟨name, -, found⟩ := List.mem_filterMap.mp listed
  obtain ⟨queue, lookup, rfl⟩ := Option.map_eq_some_iff.mp found
  rw [← exclusiveQueue_counted v s, Server.exclusiveQueue, QueueInfo.parseQueueInfo_name]
  show _ = (Option.any Queue.exclusive ((counted v s).queueMgr.lookup name))
  rw [lookup, Option.any_some, Queue.exclusive, QueueInfo.exclusive, QueueInfo.parseQueueInfo_policy]

theorem queued_of_name {state : JobState} (letter : state.name = "Q") : state = .queued := by
  cases state <;> first | rfl | simp [JobState.name] at letter

theorem queued_of_mem_queueInfos (member : q ∈ queueInfos v s) (listed : j ∈ q.jobs) :
    ∃ job, s.job j.id = some job ∧ job.state = .queued ∧ job.queue = q.name ∧ j.queue = q.name := by
  obtain ⟨job, found, parsed⟩ := (recorded_of_mem_queueInfos member listed).lookup
  obtain ⟨obj, -, rfl⟩ := List.mem_map.mp member
  obtain ⟨queue, state⟩ := JobInfo.parseJobInfo_label job j.id (v.jobEnv.order .resources)
  have kept := (List.mem_filter.mp listed).2
  rw [← parsed] at queue state
  simp only [Bool.and_eq_true, decide_eq_true_eq] at kept
  have named : j.queue = (parseQueueInfo obj).name := kept.2.trans (QueueInfo.parseQueueInfo_name obj).symm
  exact ⟨job, found, queued_of_name (state.symm.trans kept.1), queue.symm.trans named, named⟩

end Snapshot

end Reading

section Separation
variable {F : Type} [GoFloat F] {cfg : Config} {v : View} {usage : Assoc F} {s t t' : Server}
  {q r : QueueInfo} {j : JobInfo} {nodes nodes' : List (NodeInfo F)} {node : NodeInfo F}

/-- The constraints on a node that stay the same during a cycle: the host, the features and
the group that a job names, and the host list of its queue. -/
def allowed (q : QueueInfo) (j : JobInfo) (n : NodeInfo F) : Bool :=
  (j.host = "" || Text.equalFold n.name j.host) &&
    (j.features = [] || nodeHasAllFeatures n j.features) &&
    (j.hostGroup = "" || nodeHasGroup n j.hostGroup) &&
    (q.hostList = [] || q.hostList.any (hostListed n))

omit [GoFloat F] in
theorem allowed_debit (q : QueueInfo) (j i : JobInfo) (n : NodeInfo F) :
    allowed q j (n.debit i) = allowed q j n := by
  have group : nodeHasGroup (n.debit i) = nodeHasGroup n := rfl
  have features : nodeHasAllFeatures (n.debit i) = nodeHasAllFeatures n := rfl
  have name : (n.debit i).name = n.name := rfl
  have listed : hostListed (n.debit i) = hostListed n := by
    funext entry
    rw [hostListed, hostListed, group, name]
  rw [allowed, allowed, group, features, listed, name]

/-- The constraints keep the jobs of exclusive queues and the other jobs apart: a node that
is open to a queued job of another queue holds no exclusive job and is open to none. -/
structure Apart (F : Type) [GoFloat F] (v : View) (s : Server) : Prop where
  ids : ∀ id ∈ s.jobMgr.jobs, Text.trimSpace id = id
  named : ∀ name n, s.nodeMgr.lookup name = some n → ∀ id ∈ n.assignedJobs, id ≠ ""
  names : ∀ name ∈ s.nodeMgr, '/' ∉ name.toList
  single : ∀ id j, s.job id = some j → j.Ready → j.nodeRequest.1 ≤ 1
  free : ∀ q ∈ queueInfos v s, q.exclusive = false → ∀ j ∈ q.jobs,
    ∀ node ∈ (nodesOf (counted v s) v.nodeEnv : List (NodeInfo F)), allowed q j node = true →
      ∀ id ∈ s.assigned node.name, s.exclusive id = false
  disjoint : ∀ q ∈ queueInfos v s, q.exclusive = false → ∀ j ∈ q.jobs,
    ∀ node ∈ (nodesOf (counted v s) v.nodeEnv : List (NodeInfo F)), allowed q j node = true →
      ∀ r ∈ queueInfos v s, r.exclusive = true → ∀ i ∈ r.jobs, allowed r i node = false

/-- What holds during a cycle that began in `s`, with the server now in `t`. -/
structure Watched (v : View) (s t : Server) (nodes : List (NodeInfo F)) : Prop where
  queues : t.exclusiveQueue = s.exclusiveQueue
  waiting : ∀ id i, s.job id = some i → i.state = .queued → ∃ k, t.job id = some k ∧
    k.queue = i.queue ∧ k.resourceReq = i.resourceReq ∧ k.state ∉ Server.dormantStates
  distinct : (nodes.map (·.name)).Nodup
  recorded : ∀ node ∈ nodes, ∃ first ∈ (nodesOf (counted v s) v.nodeEnv : List (NodeInfo F)),
    first.name = node.name ∧ ∀ q j, allowed q j first = allowed q j node
  empty : ∀ node ∈ nodes, node.jobs = [] → t.assigned node.name = []
  free : ∀ q ∈ queueInfos v s, q.exclusive = false → ∀ j ∈ q.jobs, ∀ node ∈ nodes,
    allowed q j node = true → ∀ id ∈ t.assigned node.name, t.exclusive id = false

theorem jobs_of_mem_queueInfos (member : q ∈ queueInfos v s) :
    q.jobs = jobsOfQueue (jobObjects v (counted v s)) q.name := by
  obtain ⟨obj, -, rfl⟩ := List.mem_map.mp member
  rw [QueueInfo.parseQueueInfo_name]

/-- The chosen node is open to the job, and holds nothing if the queue is exclusive. -/
theorem allowed_of_chosen (chosen : findNodeForJob cfg { queues := cycleQueues cfg v usage s, nodes } j =
    some node) (pending : j ∈ JobIterator.pending (cycleQueues cfg v usage s)) :
    ∃ q ∈ queueInfos v s, j ∈ q.jobs ∧ allowed q j node = true ∧
      (q.exclusive = true → node.jobs = []) := by
  obtain ⟨-, fits, -⟩ := mem_candidates chosen
  obtain ⟨c, visited, here⟩ := List.mem_flatMap.mp pending
  obtain ⟨r, member, rfl⟩ := mem_cycleQueues visited
  have listed : j ∈ r.jobs := (mem_sortJobs _ _).mp here
  obtain ⟨-, -, -, -, named⟩ := queued_of_mem_queueInfos member listed
  -- the scheduler looks the queue up by its name
  obtain ⟨c', looked⟩ : ∃ c', queueForJob (cycleQueues cfg v usage s) j.queue = some c' := by
    rw [queueForJob, ← Option.isSome_iff_exists, List.find?_isSome]
    exact ⟨_, visited, by simpa using named.symm⟩
  obtain ⟨q, known, rfl⟩ := mem_cycleQueues (List.mem_of_find?_eq_some looked)
  have same : q.name = j.queue := by simpa using List.find?_some looked
  refine ⟨q, known, ?_, ?_⟩
  · rw [jobs_of_mem_queueInfos known, same, named, ← jobs_of_mem_queueInfos member]
    exact listed
  · simp only [admissible, looked, queueNodeOK, Bool.and_eq_true] at fits
    obtain ⟨⟨⟨⟨⟨-, host⟩, features⟩, group⟩, hosts, policy⟩, -⟩ := fits
    refine ⟨by simp only [allowed, host, features, group, hosts, Bool.and_self], fun exclusive => ?_⟩
    simp only [QueueInfo.exclusive, decide_eq_true_eq] at exclusive
    simpa [exclusive] using policy

theorem job_counted (v : View) (s : Server) : (counted v s).job = s.job := by
  funext id
  rw [Server.job, Server.job, (counted_managers v s).1]

theorem assigned_counted (v : View) (s : Server) : (counted v s).assigned = s.assigned := by
  funext name
  rw [Server.assigned, Server.assigned, (counted_managers v s).2]

theorem exclusive_counted (v : View) (s : Server) : (counted v s).exclusive = s.exclusive := by
  funext id
  rw [Server.exclusive, Server.exclusive, job_counted, exclusiveQueue_counted]

/-- The session opens with what the snapshot shows. -/
theorem Apart.watched (apart : Apart F v s) :
    Watched v s (counted v s) (nodesOf (counted v s) v.nodeEnv : List (NodeInfo F)) where
  queues := exclusiveQueue_counted v s
  waiting id i found queued := ⟨i, by rwa [job_counted], rfl, rfl, by simp [queued, Server.dormantStates]⟩
  distinct := nodup_nodesOf _ _
  recorded node member := ⟨node, member, rfl, fun _ _ => rfl⟩
  empty node member none := by
    obtain ⟨name, n, found, rfl⟩ := mem_nodesOf.mp member
    have before : s.nodeMgr.lookup name = some n := (counted_managers v s).2 ▸ found
    rw [parseNodeInfo_name, Server.assigned]
    show ((counted v s).nodeMgr.lookup name).elim [] (·.assignedJobs) = []
    rw [found]
    exact assigned_of_jobs_nil (apart.named name n before) none
  free q member shared j listed node known open_ id here := by
    rw [exclusive_counted]
    rw [assigned_counted] at here
    exact apart.free q member shared j listed node known open_ id here

theorem Watched.calm (watched : Watched v s t nodes) (calm : t.Calm t') (placed : t.Placed) :
    Watched v s t' nodes where
  queues := calm.queues.trans watched.queues
  waiting id i found queued := by
    obtain ⟨k, now, queue, request, awake⟩ := watched.waiting id i found queued
    obtain ⟨l, then_, queue', request', state⟩ := calm.lasting id k now awake
    refine ⟨l, then_, queue'.trans queue, request'.trans request, ?_⟩
    rcases state with same | complete
    · rwa [same]
    · simp [complete, Server.dormantStates]
  distinct := watched.distinct
  recorded := watched.recorded
  empty node member none := by
    have before := watched.empty node member none
    rw [List.eq_nil_iff_forall_not_mem] at before ⊢
    exact fun id listed => before id (calm.fewer _ id listed)
  free q member shared j listed node known open_ id here := by
    have before := calm.fewer _ id here
    obtain ⟨k, found, started⟩ := placed _ id before
    rw [calm.exclusive found (Server.Calm.awake_of_started started)]
    exact watched.free q member shared j listed node known open_ id before

/-- One job of the snapshot: nothing starts, or the job starts on the chosen node. -/
theorem Watched.considered (apart : Apart F v s) (watched : Watched v s t nodes)
    (pending : j ∈ JobIterator.pending (cycleQueues cfg v usage s))
    (considered : Considered cfg (cycleQueues cfg v usage s) env t nodes j t' nodes') :
    (t.Calm t' ∧ nodes' = nodes) ∨ ∃ node, findNodeForJob cfg
      { queues := cycleQueues cfg v usage s, nodes } j = some node ∧
      t.StartsOn t' j.id node.name ∧ nodes' = debited nodes node.name j := by
  cases considered with
  | skipped => exact .inl ⟨.refl t, rfl⟩
  | refused node chosen answer =>
    refine .inl ⟨?_, rfl⟩
    have outcome := runRequest_outcome t env j node
    generalize t.handle env (runRequest j node) = handled at outcome answer
    cases outcome with
    | refused => exact .refl t
    | failed found comment code => exact Server.calm_setComment (Server.job_of_getJob found) comment
    | run => exact absurd rfl answer
  | accepted node chosen answer =>
    refine .inr ⟨node, chosen, ?_, rfl⟩
    have outcome := runRequest_outcome t env j node
    generalize t.handle env (runRequest j node) = handled at outcome answer
    cases outcome with
    | refused => cases answer
    | failed => cases answer
    | @run key k n found ready lookup =>
      obtain ⟨listed, -, -⟩ := mem_candidates chosen
      obtain ⟨q, member, here, -, -⟩ := allowed_of_chosen chosen pending
      obtain ⟨job, initially, queued, -, -⟩ := queued_of_mem_queueInfos member here
      obtain ⟨l, present, -, request, -⟩ := watched.waiting j.id job initially queued
      -- the request names the job and the node of the snapshot
      obtain ⟨rfl, rfl⟩ : j.id = key ∧ l = k := by
        have trimmed := apart.ids j.id (Assoc.mem_of_lookup initially)
        cases (Server.getJob_of_trimmed trimmed present).symm.trans found
        exact ⟨rfl, rfl⟩
      have anchor : Text.before '/' (node.name ++ "/0") = node.name := by
        obtain ⟨first, old, same, -⟩ := watched.recorded node listed
        obtain ⟨name, n, known, rfl⟩ := mem_nodesOf.mp old
        rw [(counted_managers v s).2] at known
        rw [parseNodeInfo_name] at same
        have clean : '/' ∉ node.name.toList := same ▸ apart.names name (Assoc.mem_of_lookup known)
        have shape : (node.name ++ "/0").toList = node.name.toList ++ '/' :: ['0'] := by simp
        exact Text.before_append clean shape
      have single : ¬ 1 < l.nodeRequest.1 := by
        rw [Job.nodeRequest_congr request]
        exact not_lt.mpr (apart.single j.id job initially (.inl queued))
      have started : t.runOnNode env j.id l node.name n =
          t.start env j.id l [node.name] l.requestedCPUs n.momPort := by
        simp only [Server.runOnNode, if_neg single]
      rw [anchor] at lookup ⊢
      show t.StartsOn (t.runOnNode env j.id l node.name n) _ _
      rw [started]
      exact Server.startsOn_start present (Assoc.mem_of_lookup lookup) _ _

theorem Watched.exclusive (watched : Watched v s t nodes) (member : q ∈ queueInfos v s)
    (listed : j ∈ q.jobs) : t.exclusive j.id = q.exclusive := by
  obtain ⟨job, initially, queued, queue, -⟩ := queued_of_mem_queueInfos member listed
  obtain ⟨k, now, same, -, -⟩ := watched.waiting j.id job initially queued
  rw [Server.exclusive, now, Option.any_some, same, queue, watched.queues,
    exclusive_of_mem_queueInfos member]

/-- The record of the chosen node is not empty any more, and no job of another queue is
allowed there if the started job is exclusive. -/
theorem Watched.started (apart : Apart F v s) (watched : Watched v s t nodes)
    (member : q ∈ queueInfos v s) (listed : j ∈ q.jobs) (known : node ∈ nodes)
    (open_ : allowed q j node = true) (starts : t.StartsOn t' j.id node.name) :
    Watched v s t' (debited nodes node.name j) := by
  obtain ⟨i, k, found, after, queue, request, running⟩ := starts.job
  have old : ∀ record ∈ debited nodes node.name j, ∃ r ∈ nodes, record.name = r.name ∧
      (∀ q j, allowed q j record = allowed q j r) ∧
      (record.jobs = [] → r.jobs = [] ∧ r.name ≠ node.name) := by
    intro record there
    obtain ⟨r, before, rfl⟩ := List.mem_map.mp there
    refine ⟨r, before, ?_⟩
    by_cases same : r.name = node.name
    · rw [if_pos same]
      exact ⟨rfl, fun q j => allowed_debit q j _ r, fun none => by simp [NodeInfo.debit] at none⟩
    · rw [if_neg same]
      exact ⟨rfl, fun _ _ => rfl, fun none => ⟨none, same⟩⟩
  refine ⟨starts.queues.trans watched.queues, fun id job initially queued => ?_, ?_,
    fun record there => ?_, fun record there none => ?_,
    fun r other shared b waiting record there fits id here => ?_⟩
  · obtain ⟨l, now, queue', request', awake⟩ := watched.waiting id job initially queued
    rw [after]
    by_cases same : id = j.id
    · subst same
      obtain rfl := Option.some.inj (found.symm.trans now)
      exact ⟨k, Function.update_self .., queue.trans queue', request.trans request',
        by simp [running, Server.dormantStates]⟩
    · exact ⟨l, by rw [Function.update_of_ne same, now], queue', request', awake⟩
  · rw [name_debited]
    exact watched.distinct
  · obtain ⟨r, before, name, same, -⟩ := old record there
    obtain ⟨first, snapshot, named, labels⟩ := watched.recorded r before
    exact ⟨first, snapshot, named.trans name.symm, fun q j => (labels q j).trans (same q j).symm⟩
  · obtain ⟨r, before, name, -, empty⟩ := old record there
    obtain ⟨none, elsewhere⟩ := empty none
    rw [name, starts.elsewhere r.name elsewhere]
    exact watched.empty r before none
  · obtain ⟨o, before, name, same, -⟩ := old record there
    rw [same] at fits
    rw [name] at here
    rw [starts.exclusive]
    have earlier := watched.free r other shared b waiting o before fits id
    by_cases there : o.name = node.name
    · obtain rfl : o = node := List.inj_on_of_nodup_map watched.distinct before known there
      rw [starts.here, List.mem_append, List.mem_singleton] at here
      rcases here with held | rfl
      · exact earlier held
      · -- the started job and the waiting one are both allowed on this node
        rw [watched.exclusive member listed]
        obtain ⟨first, snapshot, -, labels⟩ := watched.recorded o before
        rw [← labels] at fits open_
        by_contra exclusive
        have closed := apart.disjoint r other shared b waiting first snapshot fits q member
          (by simpa using exclusive) j listed
        rw [open_] at closed
        cases closed
    · rw [starts.elsewhere o.name there] at here
      exact earlier here

end Separation

section World
variable {F : Type} [GoFloat F] {w : World F} {s t : Server} {env : Env}

/-- What every world of a run satisfies. -/
structure World.Kept (w : World F) : Prop where
  ahead : w.server.Ahead
  placed : w.server.Placed
  alone : w.server.ExclusiveAlone
  session : ∀ c ∈ w.session, ∃ s, ∃ usage : Assoc F, Apart F c.view s ∧
    c.queues = cycleQueues c.cfg c.view usage s ∧
    (∀ j ∈ JobIterator.pending c.progress.jobs.queues, j ∈ JobIterator.pending c.queues) ∧
    Watched c.view s w.server c.progress.nodes

/-- The condition on an event: a cycle begins only when the constraints keep exclusive and
other jobs apart, and a submission is of jobs that are not queued yet. -/
def World.KeepsApart (w : World F) : Event F → Prop
  | .begin _ _ v _ => w.session = none → Apart F v w.server
  | .submit env part => w.server.Fresh env part
  | .turn _ | .complete _ _ => True

/-- A step of the server that starts nothing, with the session as it is. -/
theorem World.Kept.calm (kept : w.Kept) (ahead : t.Ahead) (calm : w.server.Calm t) :
    World.Kept { w with server := t } where
  ahead := ahead
  placed := calm.placed kept.placed
  alone := calm.alone kept.placed kept.alone
  session c under := by
    obtain ⟨s, usage, apart, queues, jobs, watched⟩ := kept.session c under
    exact ⟨s, usage, apart, queues, jobs, watched.calm calm kept.placed⟩

theorem Considered.ahead {cfg : Config} {queues : List QueueInfo} {nodes nodes' : List (NodeInfo F)}
    {j : JobInfo} (considered : Considered cfg queues env s nodes j t nodes') (ahead : s.Ahead) :
    t.Ahead := by
  cases considered with
  | skipped => exact ahead
  | refused node | accepted node => exact ahead.step env (.request (runRequest j node)) trivial

/-- A turn of the session, whether it ends the cycle or not. -/
theorem World.Kept.turn (kept : w.Kept) {c : Session F} (under : w.session = some c) {fuel : Nat}
    {after : Turn F} (turned : c.turn fuel w.server = some after) (attempt : Nat) :
    World.Kept { server := after.progress.server,
                 session := some { c with attempt, progress := after.progress } } := by
  obtain ⟨s, usage, apart, queues, jobs, watched⟩ := kept.session c under
  obtain ⟨fewer, happened⟩ := turn_considered turned
  have left : ∀ j ∈ JobIterator.pending after.progress.jobs.queues, j ∈ JobIterator.pending c.queues :=
    fun j member => jobs j (fewer j member)
  rcases happened with ⟨server, nodes⟩ | ⟨j, member, considered⟩
  · have same : after.progress.server = w.server := server
    rw [same]
    refine ⟨kept.ahead, kept.placed, kept.alone, fun c' now => ?_⟩
    obtain rfl := Option.some.inj now
    exact ⟨s, usage, apart, queues, left, by simpa only [nodes] using watched⟩
  · have pending : j ∈ JobIterator.pending (cycleQueues c.cfg c.view usage s) := queues ▸ jobs j member
    rw [queues] at considered
    have ahead := considered.ahead kept.ahead
    rcases watched.considered apart pending considered with ⟨calm, nodes⟩ | ⟨node, chosen, starts, nodes⟩
    · refine ⟨ahead, calm.placed kept.placed, calm.alone kept.placed kept.alone, fun c' now => ?_⟩
      obtain rfl := Option.some.inj now
      exact ⟨s, usage, apart, queues, left, by simpa only [nodes] using watched.calm calm kept.placed⟩
    · obtain ⟨q, known, listed, open_, empty⟩ := allowed_of_chosen chosen pending
      have record := (mem_candidates chosen).1
      have own := watched.exclusive known listed
      refine ⟨ahead, starts.placed kept.placed, starts.alone kept.alone (fun exclusive => ?_)
        (fun shared => ?_), fun c' now => ?_⟩
      · exact watched.empty node record (empty (own ▸ exclusive))
      · exact watched.free q known (own ▸ shared) j listed node record open_
      · obtain rfl := Option.some.inj now
        exact ⟨s, usage, apart, queues, left,
          by simpa only [nodes] using watched.started apart known listed record open_ starts⟩

theorem World.Kept.step (kept : w.Kept) (e : Event F) (apart : w.KeepsApart e) : (w.step e).Kept := by
  cases e with
  | begin cfg limited v usage =>
    rw [World.step]
    split
    case h_1 idle =>
      have apart : Apart F v w.server := apart idle
      refine ⟨kept.ahead.step v.queueEnv (.request (.statusQueue "")) trivial, ?_, ?_, fun c now => ?_⟩
      · rw [Server.Placed, assigned_counted, job_counted]
        exact kept.placed
      · rw [Server.ExclusiveAlone, assigned_counted, exclusive_counted]
        exact kept.alone
      · obtain rfl := Option.some.inj now
        exact ⟨w.server, usage, apart, rfl, fun _ member => member, apart.watched⟩
    case h_2 => exact kept
  | turn fuel =>
    rw [World.step]
    cases under : w.session with
    | none => exact kept
    | some c =>
      simp only
      cases turned : c.turn fuel w.server with
      | none => exact kept
      | some after =>
        have next := kept.turn under turned (c.attempt + 1)
        cases after with
        | stop p => exact ⟨next.ahead, next.placed, next.alone, fun c now => by cases now⟩
        | go p => exact next
  | submit env part =>
    obtain ⟨next, numbered⟩ := kept.ahead
    have room : (Step.request part.request).HasRoom w.server := by
      cases part with
      | queueJob => exact apart
      | jobScript | commit => trivial
    exact kept.calm (kept.ahead.step env (.request part.request) room)
      (Server.submit_calm numbered.nextIsNew apart)
  | complete env obituary =>
    exact kept.calm (kept.ahead.step env (.request obituary.request) trivial)
      (Server.complete_calm w.server env obituary)

end World

section Runs

instance {F : Type} [GoFloat F] (v : View) (s : Server) : Decidable (Apart F v s) :=
  have _single : Decidable (∀ id j, s.job id = some j → j.Ready → j.nodeRequest.1 ≤ 1) :=
    inferInstanceAs (Decidable (∀ id j, s.jobMgr.jobs.lookup id = some j → _))
  decidable_of_iff (_ ∧ _ ∧ _ ∧ _ ∧ _ ∧ _)
    ⟨fun ⟨ids, named, names, single, free, disjoint⟩ => ⟨ids, named, names, single, free, disjoint⟩,
      fun apart => ⟨apart.ids, apart.named, apart.names, apart.single, apart.free, apart.disjoint⟩⟩

/-- Two nodes of four processors, an exclusive queue and a shared one. -/
def twoNodes (exclusiveHosts sharedHosts : String) : Server := fromEmpty setup
where
  setup : List (Env × Step) :=
    atOnce [.manager (.createQueue "solo" (policy "exclusive" exclusiveHosts)),
      .manager (.createQueue "batch" (policy "shared" sharedHosts)),
      .manager (.createNode "n1" [{ name := "np", value := "4" }]),
      .manager (.createNode "n2" [{ name := "np", value := "4" }])] ++
    [reports "n1" ["state=free"], reports "n2" ["state=free"]]
  policy (access hosts : String) : List Attr :=
    [{ name := "naccesspolicy", value := access }, { name := "hostlist", value := hosts }]

def submission (queue given : String) : List (Event Unit) :=
  [.submit { now := 1 } (.queueJob "alice@host" queue []), .submit { now := 1 } (.commit given)]

def cycle : List (Event Unit) := [.begin {} false (.at 2) ∅, .turn 1, .turn 1]

/-- A job of either queue arrives, and each arrival is followed by a cycle. -/
def arrivals : List (Event Unit) :=
  submission "solo" "0.server" ++ cycle ++ submission "batch" "1.server" ++ cycle

def afterArrivals (exclusiveHosts sharedHosts : String) : Server :=
  (arrivals.foldl World.step { server := twoNodes exclusiveHosts sharedHosts }).server

instance (s : Server) (env : Env) (part : Submission) : Decidable (s.Fresh env part) := by
  unfold Server.Fresh
  split <;> infer_instance

instance (w : World Unit) (e : Event Unit) : Decidable (w.KeepsApart e) := by
  unfold World.KeepsApart
  split <;> infer_instance

end Runs

end OpenTorque.Sched
