import OpenTorque.Server.Document
import OpenTorque.Server.JobIds

/-! What a crash does to the jobs that may not start: the jobs of the manager against
those that `recoverState` reads from the documents the handlers have saved. -/
namespace OpenTorque.Pbs
open Transition
open Text (OneLine)

def Attr.Whole (a : Attr) : Prop := OneLine a.value ∧ OneLine a.resc

instance (a : Attr) : Decidable a.Whole := inferInstanceAs (Decidable (_ ∧ _))

namespace Job

/-- The fields that reach the document, and the variables its default paths come from. -/
structure Tidy (j : Job) : Prop extends j.Plain where
  environment : ∀ name v, j.variableList.lookup name = some v → OneLine v

namespace Tidy
variable {j : Job} {id : String} {state : JobState} {attrs : List Attr}

section
variable (tidy : j.Tidy)
include tidy

theorem setState (code : minInt ≤ state.code ∧ state.code ≤ maxInt) :
    (j.setState now state).Tidy := { tidy with state := code }

theorem setExec (host : OneLine name) : (j.setExec name port).Tidy :=
  { tidy with execHost := host }

theorem setQueue (plain : OneLine name) : (j.setQueue name).Tidy :=
  { tidy with queue := plain }

theorem setOwner (name : OneLine user) : (j.setOwner user).Tidy :=
  { tidy with owner := name }

theorem setScript : (j.setScript data).Tidy := { tidy with }

theorem setHold : (j.setHold types).Tidy := { tidy with }

theorem setComment : (j.setComment note).Tidy := { tidy with }

theorem setCreateTime : (j.setCreateTime time).Tidy := { tidy with }

theorem setSession : (j.setSession session).Tidy := { tidy with }

theorem setText (value : OneLine v) (field : JobText) : (j.setText field v).Tidy :=
  { tidy with
    text := fun other listed => by
      by_cases same : other = field
      · subst same; simpa [Job.setText] using value
      · simpa [Job.setText, same] using tidy.text other listed }

theorem fillText (value : OneLine v) (field : JobText) : (j.fillText field v).Tidy := by
  unfold Job.fillText
  split
  · exact tidy.setText value field
  · exact tidy

end

theorem newJob (plain : OneLine name) : (Job.newJob name server now).Tidy where
  state := (by decide : minInt ≤ JobState.transit.code ∧ JobState.transit.code ≤ maxInt)
  queue := plain
  owner := (by decide : OneLine "")
  execHost := (by decide : OneLine "")
  text field listed := by
    have other : field ≠ .server := by rintro rfl; simp at listed
    simp [Job.newJob, other, OneLine]
  request := by simp [Job.newJob]
  provision := (by decide : OneLine "" ∧ OneLine "")
  environment := by simp [Job.newJob]

theorem cloneForArray (tidy : j.Tidy) : (j.cloneForArray index server now).Tidy where
  __ := tidy
  state := (by decide : minInt ≤ JobState.transit.code ∧ JobState.transit.code ≤ maxInt)
  text field listed := by
    have other : field ≠ .server := by rintro rfl; simp at listed
    simpa [Job.cloneForArray, Job.setText, other] using tidy.text field listed

theorem setVariables (tidy : j.Tidy) (value : OneLine v) : (j.setVariables v).Tidy := by
  refine { tidy with environment := ?_ }
  refine List.foldlRecOn (motive := fun m : Assoc String => ∀ name v, m.lookup name = some v → OneLine v)
    ((Text.split ',' v).filterMap (Text.cutKey '=')) _ tidy.environment fun m kept pair member => ?_
  intro name v found
  obtain ⟨part, listed, cut⟩ := List.mem_filterMap.mp member
  rw [Assoc.lookup_insert_ite] at found
  split at found
  · cases found
    exact ((value.split listed).cutKey cut).2
  · exact kept name v found

theorem applySpecial (tidy : j.Tidy) (whole : a.Whole) : (j.applySpecial now a).Tidy := by
  unfold Job.applySpecial
  split
  · exact tidy.setOwner whole.1
  · exact tidy.setQueue whole.1
  · exact { tidy with }
  · unfold Job.setHoldTypes
    split
    · exact { tidy with state := ⟨by simp [JobState.code, minInt], by simp [JobState.code, maxInt]⟩ }
    · exact { tidy with }
  · unfold Job.setExecutionTime
    split
    · exact tidy
    · simp only
      split
      · exact { tidy with state := ⟨by simp [JobState.code, minInt], by simp [JobState.code, maxInt]⟩ }
      · exact { tidy with }
  · exact { tidy with }
  · exact { tidy with }
  · exact { tidy with }
  · exact { tidy with execHost := whole.1 }
  · exact { tidy with }
  · exact { tidy with }
  · split
    · refine { tidy with request := fun name v found => ?_ }
      rw [Assoc.lookup_insert_ite] at found
      split at found
      case isTrue same =>
        cases found
        exact ⟨same ▸ whole.2, whole.1⟩
      case isFalse => exact tidy.request name v found
    · exact tidy
  · split
    · exact { tidy with }
    · exact tidy
  · exact tidy.setVariables whole.1
  · exact { tidy with }

theorem applyJobAttrs (tidy : j.Tidy) (whole : ∀ a ∈ attrs, a.Whole) (named : OneLine id) :
    (j.applyJobAttrs id now attrs).Tidy := by
  have applied : (attrs.foldl (Job.applyAttr now) j).Tidy := by
    refine List.foldlRecOn attrs _ tidy fun k kept a member => ?_
    unfold Job.applyAttr
    split
    · exact kept.setText (whole a member).1 _
    · exact kept.applySpecial (whole a member)
  refine (applied.fillText ?_ .euser).fillText named .hashName
  cases found : Text.cutKey '@' (attrs.foldl (Job.applyAttr now) j).owner with
  | none => decide
  | some parts => exact (applied.owner.cutKey found).1

theorem setDefaultOutputPaths (tidy : j.Tidy) (named : OneLine id) (host : OneLine hostname) :
    (j.setDefaultOutputPaths id hostname).Tidy := by
  have variable_ : ∀ name, OneLine ((j.variableList.lookup name).getD "") := by
    intro name
    cases found : j.variableList.lookup name with
    | none => decide
    | some v => exact tidy.environment name v found
  have seq : OneLine (((Text.cutKey '.' id).map (·.1)).getD id) := by
    cases found : Text.cutKey '.' id with
    | none => exact named
    | some parts => exact (named.cutKey found).1
  have dir : OneLine (if (j.variableList.lookup "PBS_O_HOME").getD "" ≠ "" then
      (j.variableList.lookup "PBS_O_HOME").getD "" else
      if (j.variableList.lookup "PBS_O_WORKDIR").getD "" ≠ "" then
        (j.variableList.lookup "PBS_O_WORKDIR").getD "" else "/tmp") := by
    split
    · exact variable_ _
    · split
      · exact variable_ _
      · decide
  have path (mark : String) (plain : OneLine mark) := (host.append (by decide : OneLine ":")).append
    (dir.joinPath (((tidy.text .name (by simp)).append plain).append seq))
  exact (tidy.fillText (path ".o" (by decide)) _).fillText (path ".e" (by decide)) _

end Tidy

end Job

/-- What a document says about the job under its id. A document that was never written
says nothing; any other is that of a job which was `Queued` only if the job is now, and
`Held` if the job is. -/
def Recorded (job : Option Job) (doc : Option String) : Prop :=
  ∀ text ∈ doc, text = "" ∨ ∃ d : Job, text = d.serialize ∧ d.Plain ∧
    (d.state = .queued → ∃ j ∈ job, j.state = .queued) ∧
    ∀ j ∈ job, j.state = .held → d.state = .held

namespace Recorded
variable {j k : Job} {job : Option Job}

theorem unwritten : Recorded job none := by simp [Recorded]

theorem blank : Recorded job (some "") := by simp [Recorded]

theorem saved (plain : j.Plain) : Recorded (some j) (some j.serialize) := by
  intro text same
  cases same
  exact .inr ⟨j, rfl, plain, fun queued => ⟨j, rfl, queued⟩, by rintro _ ⟨⟩; exact id⟩

/-- A job that keeps its state, or becomes `Queued`, needs no new document. -/
theorem put (recorded : Recorded (some j) doc) (kept : k.state = j.state ∨ k.state = .queued) :
    Recorded (some k) doc := by
  intro text member
  rcases recorded text member with blank | ⟨d, same, plain, queued, held⟩
  · exact .inl blank
  refine .inr ⟨d, same, plain, fun ready => ⟨k, rfl, ?_⟩, ?_⟩
  · obtain ⟨_, ⟨⟩, old⟩ := queued ready
    exact kept.elim (·.trans old) id
  · rintro _ ⟨⟩ now
    rcases kept with same | other
    · exact held j rfl (same ▸ now)
    · simp [now] at other

/-- A job that was not `Queued` may leave the manager and its document behind. -/
theorem remove (recorded : Recorded (some j) doc) (other : j.state ≠ .queued) :
    Recorded none doc := by
  intro text member
  rcases recorded text member with blank | ⟨d, same, plain, queued, -⟩
  · exact .inl blank
  refine .inr ⟨d, same, plain, fun ready => ?_, by simp⟩
  obtain ⟨_, ⟨⟩, old⟩ := queued ready
  exact absurd old other

end Recorded

namespace Server

def job (s : Server) (id : String) : Option Job := s.jobMgr.jobs.lookup id

def doc (s : Server) (id : String) : Option String := s.store.jobs.lookup id

def script (s : Server) (id : String) : Option String := s.store.scripts.lookup id

section Tables
variable {s t : Server} {id key given : String} {j : Job} {env : Env}

theorem lookup_insert (m : Assoc V) (id : String) (v : V) :
    (fun x => (m.insert id v).lookup x) = Function.update (fun x => m.lookup x) id (some v) := by
  funext x
  by_cases same : x = id
  · subst same; simp
  · simp [same]

theorem lookup_erase (m : Assoc V) (id : String) :
    (fun x => (m.erase id).lookup x) = Function.update (fun x => m.lookup x) id none := by
  funext x
  by_cases same : x = id
  · subst same; simp
  · simp [same]

@[simp] theorem job_putJob : (s.putJob id j).job = Function.update s.job id (some j) :=
  lookup_insert ..

@[simp] theorem job_addJob :
    (s.onJobs (·.addJob id j)).job = Function.update s.job id (some j) := lookup_insert ..

@[simp] theorem job_removeJob : (s.removeJob id).job = Function.update s.job id none := by
  funext x
  by_cases same : x = id
  · subst same; simp [job, JobManager.removeJob_lookup]
  · simp [job, JobManager.removeJob_lookup, same]

@[simp] theorem job_updateJobState : (s.updateJobState env id state).job =
    Function.update s.job id ((s.job id).map (·.setState env.now state)) := by
  funext x
  by_cases same : x = id
  · subst same; simp [job, JobManager.updateJobState_lookup]
  · simp [job, JobManager.updateJobState_lookup, same]

@[simp] theorem job_onQueues : (s.onQueues change).job = s.job := rfl
@[simp] theorem job_onNodes : (s.onNodes change).job = s.job := rfl
@[simp] theorem job_onStore : (s.onStore change).job = s.job := rfl
@[simp] theorem doc_onQueues : (s.onQueues change).doc = s.doc := rfl
@[simp] theorem doc_onNodes : (s.onNodes change).doc = s.doc := rfl
@[simp] theorem doc_onJobs : (s.onJobs change).doc = s.doc := rfl

@[simp] theorem doc_saveJob :
    (s.saveJob id j).doc = Function.update s.doc id (some j.serialize) := lookup_insert ..

@[simp] theorem doc_deleteJob :
    (s.onStore (·.deleteJob id)).doc = Function.update s.doc id none := lookup_erase ..

theorem doc_saveJobScript : (s.onStore (·.saveJobScript id data)).doc = s.doc ∨
    (s.onStore (·.saveJobScript id data)).doc = Function.update s.doc id (some "") := by
  by_cases missing : s.store.backend = .postgres ∧ id ∉ s.store.jobs
  · right
    have same : (s.store.saveJobScript id data).jobs = s.store.jobs.insert id "" := if_pos missing
    funext x
    rw [doc, onStore_store, same]
    exact congrFun (lookup_insert s.store.jobs id "") x
  · left
    have same : (s.store.saveJobScript id data).jobs = s.store.jobs := if_neg missing
    funext x
    rw [doc, onStore_store, same]
    rfl

@[simp] theorem doc_removeScriptFile : (s.onStore (·.removeScriptFile id)).doc = s.doc := rfl

@[simp] theorem job_releaseOn : (s.releaseOn names id slots).job = s.job :=
  List.foldlRecOn (motive := fun t : Server => t.job = s.job) names _ rfl fun _ same _ _ => same

@[simp] theorem doc_releaseOn : (s.releaseOn names id slots).doc = s.doc :=
  List.foldlRecOn (motive := fun t : Server => t.doc = s.doc) names _ rfl fun _ same _ _ => same

@[simp] theorem job_assignOn : (s.assignOn names id slots).job = s.job :=
  List.foldlRecOn (motive := fun t : Server => t.job = s.job) names _ rfl fun _ same _ _ => same

@[simp] theorem doc_assignOn : (s.assignOn names id slots).doc = s.doc :=
  List.foldlRecOn (motive := fun t : Server => t.doc = s.doc) names _ rfl fun _ same _ _ => same

theorem job_of_getJob (found : s.getJob env given = some (key, j)) : s.job key = some j :=
  s.jobMgr.getJob_lookup _ _ found

theorem getJob_of_trimmed {id : String} (trimmed : Text.trimSpace id = id)
    (present : s.job id = some j) : s.getJob env id = some (id, j) := by
  have known : id ∈ s.jobMgr.jobs := Assoc.mem_of_lookup present
  have resolved : s.jobMgr.resolve (env.order .shortID) id = some id := by
    simp [JobManager.resolve, trimmed, known]
  have lookup : s.jobMgr.jobs.lookup id = some j := present
  simp [getJob, JobManager.getJob, resolved, lookup]

end Tables

/-- The jobs of the manager are tidy, and the documents outside `pending` record them. -/
structure Durable (pending : List String) (s : Server) : Prop where
  tidy : ∀ id, ∀ j ∈ s.job id, j.Tidy
  recorded : ∀ id, id ∉ pending → Recorded (s.job id) (s.doc id)

namespace Durable
variable {s t : Server} {id key given : String} {j k : Job} {env : Env} {pending : List String}

section
variable (durable : s.Durable pending)
include durable

theorem same (job : t.job = s.job) (doc : t.doc = s.doc) :
    t.Durable pending where
  tidy := job ▸ durable.tidy
  recorded := job ▸ doc ▸ durable.recorded

/-- One job and its document change. -/
theorem update (job : t.job = Function.update s.job id job')
    (doc : t.doc = Function.update s.doc id doc') (tidy : ∀ j ∈ job', j.Tidy)
    (recorded : id ∉ pending → Recorded job' doc') : t.Durable pending where
  tidy x j member := by
    rw [job] at member
    by_cases same : x = id
    · subst same
      exact tidy j (by simpa using member)
    · exact durable.tidy x j (by simpa [same] using member)
  recorded x outside := by
    rw [job, doc]
    by_cases same : x = id
    · subst same
      simpa using recorded outside
    · simpa [same] using durable.recorded x outside

/-- A job is changed without a document, which its state allows. -/
theorem put (found : s.job id = some j)
    (job : t.job = Function.update s.job id (some k)) (doc : t.doc = s.doc) (tidy : k.Tidy)
    (kept : k.state = j.state ∨ k.state = .queued) : t.Durable pending :=
  durable.update job (doc.trans (Function.update_eq_self id s.doc).symm) (by simpa using tidy)
    fun outside => (found ▸ durable.recorded id outside : Recorded (some j) (s.doc id)).put kept

theorem putJob (found : s.job id = some j) (tidy : k.Tidy)
    (kept : k.state = j.state ∨ k.state = .queued) : (s.putJob id k).Durable pending :=
  durable.put found job_putJob rfl tidy kept

theorem write (job : t.job = Function.update s.job id (some k))
    (doc : t.doc = Function.update s.doc id (some k.serialize)) (tidy : k.Tidy) :
    t.Durable pending :=
  durable.update job doc (by simpa using tidy) fun _ => .saved tidy.toPlain

theorem erase (job : t.job = Function.update s.job id none)
    (doc : t.doc = Function.update s.doc id none) : t.Durable pending :=
  durable.update job doc (by simp) fun _ => .unwritten

end

/-- A job is written that had been left out. -/
theorem writePending (durable : s.Durable (id :: pending))
    (job : t.job = Function.update s.job id (some k))
    (doc : t.doc = Function.update s.doc id (some k.serialize)) (tidy : k.Tidy) :
    t.Durable pending where
  tidy := (durable.write job doc tidy).tidy
  recorded x outside := by
    by_cases same : x = id
    · subst same
      rw [job, doc]
      simpa using Recorded.saved tidy.toPlain
    · exact (durable.write job doc tidy).recorded x (by simp [same, outside])

theorem mono (durable : s.Durable pending) (fewer : ∀ id ∈ pending, id ∈ more) : s.Durable more :=
  ⟨durable.tidy, fun id outside => durable.recorded id fun member => outside (fewer id member)⟩

end Durable

theorem mem_onQueue (m : QueueManager) : q ∈ m.onQueue name change ↔ q ∈ m := by
  unfold QueueManager.onQueue
  split
  · rfl
  case h_2 found =>
    rw [AList.mem_insert]
    exact or_iff_right_of_imp fun same => same ▸ Assoc.mem_of_lookup found

theorem admits_mem (s : Server) (accepted : (s.admits dest key j user routed).isOk = true) :
    dest ∈ s.queueMgr := by
  unfold admits at accepted
  split at accepted
  · simp [Except.isOk, Except.toBool] at accepted
  case h_2 found => exact Assoc.mem_of_lookup found

theorem finalizeRoute_mem (s : Server) (routed : s.finalizeRoute key j user = .ok dest) :
    dest ∈ s.queueMgr := by
  unfold finalizeRoute at routed
  cases route : s.routeJob key j user with
  | error reason => simp [route, bind, Except.bind] at routed
  | ok pair =>
    simp only [route, bind, Except.bind] at routed
    split at routed
    case isTrue forwarded =>
      cases routed
      unfold routeJob at route
      split at route
      · cases route; simp at forwarded
      · split at route
        · cases route; simp at forwarded
        · split at route
          · cases route
          · split at route
            case h_1 chosen =>
              cases route
              exact s.admits_mem (by simpa using List.find?_some chosen)
            case h_2 => cases route
    case isFalse =>
      cases admitted : s.admits pair.1 key j user false with
      | error reason => simp [admitted] at routed
      | ok _ =>
        simp only [admitted] at routed
        cases routed
        exact s.admits_mem (congrArg Except.isOk admitted)

section Commit
variable {s t : Server} {id key given : String} {j k : Job} {env : Env} {ids pending : List String}

/-- A commit that went through has written the job, with its document. -/
theorem commitJobInstance_ok (done : s.commitJobInstance env id owner = (t, .ok ()))
    (found : s.job id = some j) (tidy : j.Tidy) (named : OneLine id) (host : OneLine env.hostname)
    (queues : ∀ q ∈ s.queueMgr, OneLine q) :
    (∃ k : Job, k.Tidy ∧ t.job = Function.update s.job id (some k) ∧
      t.doc = Function.update s.doc id (some k.serialize)) ∧
    ∀ q ∈ t.queueMgr, OneLine q := by
  unfold commitJobInstance at done
  rw [show s.jobMgr.jobs.lookup id = some j from found] at done
  simp only at done
  split at done
  · cases done
  case h_2 dest routed =>
    cases done
    have there := finalizeRoute_mem _ routed
    rw [onJobs_queueMgr, onJobs_queueMgr] at there
    have committed : (((j.setDefaultOutputPaths id env.hostname).setState env.now .queued).setQueue
        dest).Tidy :=
      ((tidy.setDefaultOutputPaths named host).setState (by decide)).setQueue (queues dest there)
    generalize ((j.setDefaultOutputPaths id env.hostname).setState env.now .queued).setQueue dest =
      entered at committed
    constructor
    · unfold enterQueue
      simp only
      split
      · exact ⟨entered, committed, by simp, by simp⟩
      · refine ⟨entered.setState env.now (entered.committedState env.now), committed.setState ?_, ?_, ?_⟩
        · unfold Job.committedState
          split_ifs <;> decide
        · simp
        · simp
    · intro q member
      refine queues q ?_
      unfold enterQueue at member
      simp only [onStore_queueMgr, onQueues_queueMgr, mem_onQueue] at member
      split at member <;> exact member

theorem commitTasks_ok (durable : s.Durable ids) (present : ∀ id ∈ ids, ∃ j, s.job id = some j)
    (named : ∀ id ∈ ids, OneLine id) (host : OneLine env.hostname)
    (queues : ∀ q ∈ s.queueMgr, OneLine q) (done : commitTasks env owner s ids = (t, .ok ())) :
    t.Durable [] ∧ ∀ x, x ∉ ids → t.job x = s.job x := by
  induction ids generalizing s with
  | nil =>
    cases done
    exact ⟨durable, fun _ _ => rfl⟩
  | cons id ids ih =>
    unfold commitTasks at done
    split at done
    · cases done
    case h_2 u first =>
      obtain ⟨j, found⟩ := present id (by simp)
      obtain ⟨⟨k, tidy, job, doc⟩, names⟩ := commitJobInstance_ok first found
        (durable.tidy id j found) (named id (by simp)) host queues
      have still : ∀ x ∈ ids, ∃ j, u.job x = some j := by
        intro x member
        rw [job]
        by_cases same : x = id
        · subst same; simp
        · simpa [same] using present x (by simp [member])
      obtain ⟨rest, frame⟩ := ih (durable.writePending job doc tidy) still
        (fun x member => named x (by simp [member])) names done
      refine ⟨rest, fun x outside => ?_⟩
      rw [List.mem_cons, not_or] at outside
      rw [frame x outside.2, job, Function.update_of_ne outside.1]

theorem job_addTask (i : Int) : (addTask env id j s i).job = Function.update s.job
    (arrayTaskID id s.cfg.serverName i) (some (j.cloneForArray i s.cfg.serverName env.now)) :=
  job_addJob

theorem addTask_durable (durable : s.Durable pending) (tidy : j.Tidy)
    (listed : arrayTaskID id s.cfg.serverName i ∈ pending) :
    (addTask env id j s i).Durable pending := by
  have clone : ∀ k ∈ some (j.cloneForArray i s.cfg.serverName env.now), k.Tidy := by
    simpa using tidy.cloneForArray
  rcases doc_saveJobScript (s := s.onJobs (·.addJob (arrayTaskID id s.cfg.serverName i)
      (j.cloneForArray i s.cfg.serverName env.now))) with kept | filled
  · exact durable.update (job_addTask i) (kept.trans (Function.update_eq_self _ s.doc).symm) clone
      (fun outside => absurd listed outside)
  · exact durable.update (job_addTask i) filled clone (fun outside => absurd listed outside)

/-- The tasks are added to the manager; their documents are still to come. -/
theorem addTasks_durable (durable : s.Durable pending) (tidy : j.Tidy) (values : List Int)
    (listed : ∀ i ∈ values, arrayTaskID id s.cfg.serverName i ∈ pending) :
    (values.foldl (addTask env id j) s).Durable pending := by
  induction values generalizing s with
  | nil => exact durable
  | cons i values ih =>
    exact ih (addTask_durable durable tidy (listed i (by simp)))
      fun i member => listed i (by simp [member])

theorem addTasks_queueMgr (values : List Int) :
    (values.foldl (addTask env id j) s).queueMgr = s.queueMgr :=
  List.foldlRecOn (motive := fun t : Server => t.queueMgr = s.queueMgr) values _ rfl
    fun _ same _ _ => same

theorem addTasks_job (values : List Int)
    (other : x ∉ values.map (arrayTaskID id s.cfg.serverName)) :
    (values.foldl (addTask env id j) s).job x = s.job x := by
  induction values generalizing s with
  | nil => rfl
  | cons i values ih =>
    rw [List.map_cons, List.mem_cons, not_or] at other
    have rest := ih (s := addTask env id j s i) other.2
    rw [List.foldl_cons, rest, job_addTask, Function.update_of_ne other.1]

theorem addTasks_present (values : List Int)
    (listed : x ∈ values.map (arrayTaskID id s.cfg.serverName)) :
    ∃ k, (values.foldl (addTask env id j) s).job x = some k := by
  induction values generalizing s with
  | nil => simp at listed
  | cons i values ih =>
    by_cases later : x ∈ values.map (arrayTaskID id s.cfg.serverName)
    · exact ih later
    · have here : x = arrayTaskID id s.cfg.serverName i := by
        simpa [later] using listed
      have rest : (values.foldl (addTask env id j) (addTask env id j s i)).job x = _ :=
        addTasks_job values later
      exact ⟨_, by rw [List.foldl_cons, rest, job_addTask, here, Function.update_self]⟩

theorem arrayTaskID_ne (id server : String) (index : Int) : arrayTaskID id server index ≠ id := by
  intro same
  have longer : ∀ rest : List Char, id.toList ++ '[' :: rest ≠ id.toList := by
    intro rest equal
    have lengths := congrArg List.length equal
    simp at lengths
  have shape : id.toList = (((Text.cutKey '.' id).map (·.1)).getD id).toList ++
      '[' :: ((itoa index).toList ++ "].".toList ++ server.toList) := by
    conv_lhs => rw [← same]
    simp [arrayTaskID]
  cases found : Text.cut '.' id with
  | none =>
    rw [Text.cutKey, found] at shape
    exact longer _ shape.symm
  | some parts =>
    obtain ⟨split, -⟩ := Text.cut_eq_some found
    by_cases empty : parts.1 = ""
    · simp only [Text.cutKey, found, Option.filter, empty] at shape
      exact longer _ shape.symm
    · rw [Text.cutKey, found, split] at shape
      simp [Option.filter, empty] at shape

theorem oneLine_arrayTaskID (named : OneLine id) (server : OneLine name) (index : Int) :
    OneLine (arrayTaskID id name index) := by
  have stem : OneLine (((Text.cutKey '.' id).map (·.1)).getD id) := by
    cases found : Text.cutKey '.' id with
    | none => exact named
    | some parts => exact (named.cutKey found).1
  exact (((stem.append (by decide : OneLine "[")).append (oneLine_itoa index)).append
    (by decide : OneLine "].")).append server

/-- An array that was accepted: its tasks are written and the master is gone. -/
theorem processJobArray_expanded (durable : s.Durable []) (found : s.job id = some j)
    (tidy : k.Tidy) (named : OneLine id) (server : OneLine s.cfg.serverName)
    (host : OneLine env.hostname) (queues : ∀ q ∈ s.queueMgr, OneLine q)
    (unqueued : j.state = .queued → Text.trimSpace k.jobArrayReq = "")
    (done : s.processJobArray env id k owner = (t, .expanded)) : t.Durable [] := by
  unfold processJobArray at done
  split at done
  · cases done
  case isFalse array =>
    split at done
    · cases done
    · cases done
    · cases done
    case h_4 values _ spec =>
      simp only at done
      split at done
      · cases done
      case h_2 u committed =>
        cases done
        have added : (values.foldl (addTask env id k) s).Durable
            (values.map (arrayTaskID id s.cfg.serverName)) :=
          addTasks_durable (durable.mono (by simp)) tidy values fun i member =>
            List.mem_map_of_mem member
        obtain ⟨written, frame⟩ := commitTasks_ok added (fun x => addTasks_present values)
          (by
            intro x member
            obtain ⟨i, -, rfl⟩ := List.mem_map.mp member
            exact oneLine_arrayTaskID named server i) host
          (by rw [addTasks_queueMgr]; exact queues) committed
        have master : id ∉ values.map (arrayTaskID id s.cfg.serverName) := by
          intro member
          obtain ⟨i, -, same⟩ := List.mem_map.mp member
          exact arrayTaskID_ne id _ i same
        have still : u.job id = some j := by
          rw [frame id master, addTasks_job values master, found]
        have recorded := written.recorded id (by simp)
        rw [still] at recorded
        exact written.update (by simp [discard]) (Function.update_eq_self id u.doc).symm (by simp)
          fun _ => recorded.remove fun queued => array (unqueued queued)

theorem processJobArray_single (single : s.processJobArray env id j owner = (t, .single)) : t = s := by
  unfold processJobArray at single
  split at single
  · cases single
    rfl
  · split at single
    · cases single
    · cases single
    · cases single
      rfl
    · simp only at single
      split at single <;> cases single

/-- A commit that was acknowledged wrote the job or all tasks of its array. -/
theorem commit_acknowledged (durable : s.Durable []) (found : s.job id = some j) (named : OneLine id)
    (server : OneLine s.cfg.serverName) (host : OneLine env.hostname)
    (queues : ∀ q ∈ s.queueMgr, OneLine q)
    (unqueued : j.state = .queued → Text.trimSpace j.jobArrayReq = "")
    (answered : (s.commit env given id j reply).reply ≠ .error pbsePerm ∧
      (s.commit env given id j reply).reply ≠ .silent) :
    (s.commit env given id j reply).server.Durable [] := by
  have tidy := durable.tidy id j found
  unfold commit at answered ⊢
  split at answered
  · exact absurd rfl answered.2
  · exact absurd rfl answered.1
  case h_3 expanded =>
    exact processJobArray_expanded durable found tidy named server host queues unqueued expanded
  case h_4 t single =>
    obtain rfl := processJobArray_single single
    split at answered
    · exact absurd rfl answered.1
    case h_2 u committed =>
      obtain ⟨⟨k, wrote, job, doc⟩, -⟩ := commitJobInstance_ok committed found tidy named host queues
      exact durable.write job doc wrote

end Commit

namespace Durable
variable {s t : Server} {id key given : String} {j k : Job} {env : Env} {pending : List String}

theorem saveJobScript (durable : s.Durable pending) :
    (s.onStore (·.saveJobScript given data)).Durable pending := by
  rcases (doc_saveJobScript : (s.onStore (·.saveJobScript given data)).doc = _ ∨ _) with kept | filled
  · exact durable.same rfl kept
  · exact durable.update (Function.update_eq_self given s.job).symm filled
      (durable.tidy given) fun _ => .blank

section
variable (durable : s.Durable [])
include durable

theorem script (found : s.job key = some j) (data : String) :
    ((s.putJob key (j.setScript data)).onStore (·.saveJobScript given data)).Durable [] := by
  have put : (s.putJob key (j.setScript data)).Durable [] :=
    durable.putJob found (durable.tidy key j found).setScript (.inl rfl)
  exact put.saveJobScript

theorem delete : (s.delete env given j).Durable [] := by
  have job : (s.delete env given j).job = Function.update s.job given none := by
    simp only [Server.delete]
    split <;> simp [releaseNodeResources]
  have doc : (s.delete env given j).doc = Function.update s.doc given none := by
    simp only [Server.delete]
    split <;> simp [releaseNodeResources]
  exact durable.erase job doc

theorem requeue (found : s.job id = some j) :
    (s.requeue env id j).Durable [] := by
  have tidy : ((j.setExec "" 0).setState env.now .queued).Tidy :=
    ((durable.tidy id j found).setExec (by decide)).setState (by decide)
  exact durable.write job_putJob doc_saveJob tidy

theorem start (tidy : j.Tidy) (names : ∀ name ∈ nodes, OneLine name) :
    (s.start env id j nodes slots port).Durable [] := by
  have host : OneLine (execHostOf nodes) := by
    refine .join (by decide) fun part listed => ?_
    obtain ⟨name, member, rfl⟩ := List.mem_map.mp listed
    exact (names name member).append (by decide)
  have running : ((j.setExec (execHostOf nodes) port).setState env.now .running).Tidy :=
    (tidy.setExec host).setState (by decide)
  have job : (s.start env id j nodes slots port).job = Function.update s.job id (some _) :=
    job_putJob.trans (by rw [job_assignOn])
  have doc : (s.start env id j nodes slots port).doc = Function.update s.doc id (some _) :=
    doc_saveJob.trans (congrArg (Function.update · id _) doc_assignOn)
  exact durable.write job doc running

theorem finish (tidy : done.Tidy) :
    (s.finish env given id j done).Durable [] := by
  have job : (s.finish env given id j done).job = Function.update s.job id (some done) := by
    simp only [Server.finish]
    split <;> simp [releaseNodeResources]
  have doc : (s.finish env given id j done).doc =
      Function.update s.doc id (some done.serialize) := by
    simp only [Server.finish]
    split <;> simp [releaseNodeResources]
  exact durable.write job doc tidy

theorem putObject (object : s.jobMgr.object id = some j)
    (tidy : j.Tidy → k.Tidy) (kept : k.state = j.state ∨ k.state = .queued) :
    (s.onJobs (·.putObject id k)).Durable [] := by
  by_cases present : id ∈ s.jobMgr.jobs
  · obtain ⟨found, held⟩ := Assoc.exists_lookup present
    have same : found = j := by simpa [JobManager.object, held] using object
    subst same
    have put : s.onJobs (·.putObject id k) = s.putJob id k := by
      simp [onJobs, JobManager.putObject, present]
    rw [put]
    exact durable.put held job_putJob rfl (tidy (durable.tidy id found held)) kept
  · refine durable.same ?_ rfl
    funext x
    simp [job, JobManager.putObject, present]

theorem dispatchDone : (s.dispatchDone d session).Durable [] := by
  have ended : (s.endDispatch d).Durable [] := durable.same rfl rfl
  unfold Server.dispatchDone
  split
  case h_1 object _ => exact ended.putObject object (·.setSession) (.inl rfl)
  case h_2 => exact ended

theorem dispatchFailed : (s.dispatchFailed env d).Durable [] := by
  have ended : (s.endDispatch d).Durable [] := durable.same rfl rfl
  unfold Server.dispatchFailed undoJobDispatch
  split
  · exact ended
  case h_2 j object =>
    have reverted : ((s.endDispatch d).onJobs
        (·.putObject d.job ((j.setState env.now .queued).setExec "" 0))).Durable [] :=
      ended.putObject object (fun tidy => (tidy.setState (by decide)).setExec (by decide)) (.inr rfl)
    simp only
    split <;> exact reverted.same rfl rfl

theorem promote : (Server.promote env s id).Durable [] := by
  unfold Server.promote
  split
  · exact durable
  case h_2 j found =>
    split
    · have promoted : (s.updateJobState env id .queued).job =
          Function.update s.job id (some (j.setState env.now .queued)) := by
        rw [job_updateJobState, show s.job id = some j from found, Option.map_some]
      exact durable.put found promoted rfl ((durable.tidy id j found).setState (by decide)) (.inr rfl)
    · exact durable

theorem purge : (Server.purge env s id).Durable [] := by
  unfold Server.purge
  split
  · exact durable
  · split
    · exact durable.erase job_removeJob doc_deleteJob
    · exact durable

theorem requeueFrom : (Server.requeueFrom env name s id).Durable [] := by
  unfold Server.requeueFrom
  split
  · exact durable
  case h_2 found =>
    split
    · exact (durable.same (t := s.onNode _ _) rfl rfl).requeue (job_of_getJob found)
    · exact durable

theorem checkNode : (Server.checkNode env s name).Durable [] := by
  have marked : (s.onNode name (·.markDown)).Durable [] := durable.same rfl rfl
  unfold Server.checkNode
  split
  · exact durable
  · split
    · unfold requeueNodeJobs
      split
      · exact marked
      · split
        · exact marked
        · exact List.foldlRecOn _ _ marked fun _ kept _ _ => kept.requeueFrom
    · exact durable

theorem reconcile : (Server.reconcile env running s id).Durable [] := by
  unfold Server.reconcile
  split
  · exact durable
  case h_2 j found =>
    simp only
    split
    · exact durable
    · split
      · exact durable
      · split
        · exact durable
        · have released : (s.releaseOn (Job.hostNames j.execHost) id (max j.nodeRequest.2 1)).Durable [] :=
            durable.same job_releaseOn doc_releaseOn
          exact released.requeue (by rw [job_releaseOn]; exact found)

end

end Durable

def OneLineNames (s : Server) (env : Env) : Prop :=
  OneLine env.hostname ∧ OneLine s.cfg.serverName ∧ OneLine s.jobMgr.formatJobID ∧
    (∀ q ∈ s.queueMgr.keys, OneLine q) ∧ (∀ n ∈ s.nodeMgr.keys, OneLine n) ∧
    ∀ id ∈ s.jobMgr.jobs.keys, OneLine id

end Server

/-- The client was told that its request was done. -/
def Reply.Acknowledged : Reply → Prop
  | .error _ | .silent => False
  | _ => True

theorem Reply.Acknowledged.told {reply : Reply} (told : reply.Acknowledged) :
    reply ≠ .error pbsePerm ∧ reply ≠ .silent := by
  constructor <;> rintro rfl <;> exact told

/-- The step is acknowledged if it is a request. -/
def Step.Acknowledged (s : Server) (env : Env) : Step → Prop
  | .request r => (s.handle env r).reply.Acknowledged
  | _ => True

/-- The requests that the documents keep up with: a new job gets a number and texts of one
line, no hold is set through `HoldJob`, and no `Queued` job is expanded into an array. -/
def Server.Persisted (s : Server) (env : Env) : Step → Prop
  | .request (.queueJob user _ attrs) =>
    s.jobMgr.nextJobID < maxInt ∧ OneLine user ∧ ∀ a ∈ attrs, a.Whole
  | .request (.modifyJob _ attrs) => ∀ a ∈ attrs, a.Whole
  | .request (.holdJob given) =>
    ∀ found ∈ s.getJob env given, found.2.state ≠ .queued ∧ found.2.state ≠ .waiting
  | .request (.commit given) | .request (.jobScript given _ true) =>
    ∀ found ∈ s.getJob env given,
      found.2.state = .queued → Text.trimSpace found.2.jobArrayReq = ""
  | _ => True

theorem Server.submittedJob_tidy {s : Server} (names : s.OneLineNames env)
    (present : queue ∈ s.queueMgr) (user : OneLine name) (whole : ∀ a ∈ attrs, Attr.Whole a) :
    (s.submittedJob env name queue attrs).Tidy := by
  obtain ⟨-, -, id, queues, -⟩ := names
  have made : (Job.newJob queue s.cfg.serverName env.now).Tidy :=
    .newJob (queues queue (AList.mem_keys.mp present))
  have tidy : (((Job.newJob queue s.cfg.serverName env.now).setOwner name).applyJobAttrs
      s.jobMgr.formatJobID env.now attrs).Tidy := (made.setOwner user).applyJobAttrs whole id
  simp only [Server.submittedJob]
  split
  · exact tidy.setOwner user
  · exact tidy

theorem Server.manage_jobs {s : Server} (done : s.manage env command = some s') :
    s'.job = s.job ∧ s'.doc = s.doc := by
  have saveQueue : ∀ (t : Server) (name : String), (t.saveQueue env name).job = t.job ∧
      (t.saveQueue env name).doc = t.doc := by
    intro t name
    unfold Server.saveQueue
    split <;> exact ⟨rfl, rfl⟩
  cases command with
  | createQueue | setQueue | unsetQueue =>
    simp only [Server.manage, Option.ite_none_left_eq_some, Option.ite_none_right_eq_some] at done
    obtain ⟨-, ⟨⟩⟩ := done
    exact saveQueue _ _
  | deleteQueue | deleteNode | setNode =>
    simp only [Server.manage, Option.ite_none_right_eq_some] at done
    obtain ⟨-, ⟨⟩⟩ := done
    exact ⟨rfl, rfl⟩
  | createNode | setServer | unsetServer =>
    cases done
    exact ⟨rfl, rfl⟩
  | unsupported => cases done

theorem Effect.durable (effect : Effect s env step s') (durable : s.Durable [])
    (names : s.OneLineNames env) (answered : step.Acknowledged s env)
    (persisted : s.Persisted env step) (fresh : s.NextIsNew) : s'.Durable [] := by
  obtain ⟨host, server, -, queues, nodes, ids⟩ := id names
  have named {given key : String} {j : Job} (found : s.getJob env given = some (key, j)) :
      OneLine key := ids key (AList.mem_keys.mp (Assoc.mem_of_lookup (Server.job_of_getJob found)))
  have tidy {given key : String} {j : Job} (found : s.getJob env given = some (key, j)) : j.Tidy :=
    durable.tidy key j (Server.job_of_getJob found)
  have present {name : String} (member : name ∈ s.nodeMgr) : OneLine name :=
    nodes name (AList.mem_keys.mp member)
  have queue {name : String} (member : name ∈ s.queueMgr) : OneLine name :=
    queues name (AList.mem_keys.mp member)
  cases effect with
  | unchanged => exact durable
  | recounted => exact durable.same rfl rfl
  | numbered => exact durable.same rfl rfl
  | submitted there =>
    obtain ⟨-, user, whole⟩ := persisted
    have unwritten : s.doc s.jobMgr.formatJobID = none := by
      exact AList.lookup_eq_none.mpr fresh.2
    refine durable.update Server.job_addJob (Function.update_eq_self _ s.doc).symm ?_ fun _ => ?_
    · simpa using Server.submittedJob_tidy names there user whole
    · rw [unwritten]
      exact .unwritten
  | scripted found => exact durable.script (Server.job_of_getJob found) _
  | @scriptCommitted given key j data found =>
    have reply : (s.handle env (.jobScript given data true)).reply =
        (((s.putJob key (j.setScript data)).onStore (·.saveJobScript given data)).commit env
          given key (j.setScript data) .ok).reply := by
      simp [Server.handle, Server.handleJobScript, found]
    refine Server.commit_acknowledged (durable.script (Server.job_of_getJob found) data) (by simp) (named found) server host
      (fun q member => queue member) (persisted _ found) ?_
    rw [← reply]
    exact answered.told
  | @committed given key j found =>
    have reply : (s.handle env (.commit given)).reply =
        (s.commit env given key j (.jobID replyChoiceCommit given)).reply := by
      simp [Server.handle, Server.handleCommit, found]
    refine Server.commit_acknowledged durable (Server.job_of_getJob found) (named found) server host
      (fun q member => queue member) (persisted _ found) ?_
    rw [← reply]
    exact answered.told
  | deleted => exact durable.delete
  | held _ found idle =>
    have other := persisted _ found
    exact absurd idle (not_or.mpr other)
  | released _ found =>
    exact (durable.putJob (Server.job_of_getJob found) ((tidy found).setHold.setState (by decide))
      (.inr rfl)).same rfl rfl
  | cleared found =>
    exact durable.putJob (Server.job_of_getJob found) (tidy found).setHold (.inl rfl)
  | modified found =>
    exact durable.write Server.job_putJob Server.doc_saveJob
      ((tidy found).applyJobAttrs persisted (named found))
  | moved _ found _ there =>
    exact durable.write Server.job_putJob Server.doc_saveJob ((tidy found).setQueue (queue there))
  | rerun found =>
    exact (durable.same (t := s.onNode _ _) rfl rfl).requeue (Server.job_of_getJob found)
  | requeued found => exact durable.requeue (Server.job_of_getJob found)
  | @ordered given₁ key₁ j₁ given₂ key₂ j₂ found₁ found₂ distinct =>
    have first : ((s.putJob key₁ (j₁.setCreateTime j₂.createTime)).saveJob key₁
        (j₁.setCreateTime j₂.createTime)).Durable [] :=
      durable.write Server.job_putJob Server.doc_saveJob (tidy found₁).setCreateTime
    exact first.write Server.job_putJob Server.doc_saveJob (tidy found₂).setCreateTime
  | failedDependency found =>
    exact durable.putJob (Server.job_of_getJob found) (tidy found).setComment (.inl rfl)
  | started found _ _ _ there =>
    exact durable.start (tidy found) (by simpa using present (Assoc.mem_of_lookup there))
  | startedMulti found _ _ _ there =>
    exact durable.start { tidy found with } fun name member =>
      present (Server.selectNodes_present (Assoc.mem_of_lookup there) _ _ _ name member)
  | ended found =>
    exact durable.finish { tidy found with
      state := (by decide : minInt ≤ JobState.complete.code ∧ JobState.complete.code ≤ maxInt) }
  | managed done =>
    obtain ⟨job, doc⟩ := Server.manage_jobs done
    exact durable.same job doc
  | authenticated => exact durable.same rfl rfl
  | heard =>
    refine durable.same ?_ ?_
    all_goals
      simp only [Server.handleISMessage, Server.tryAutoRegisterNode]
      split
      · rfl
      · split <;> rfl
  | dispatched => exact durable.dispatchDone
  | undone => exact durable.dispatchFailed
  | nodesChecked => exact List.foldlRecOn _ _ durable fun _ kept _ _ => kept.checkNode
  | promoted => exact List.foldlRecOn _ _ durable fun _ kept _ _ => kept.promote
  | cleaned => exact List.foldlRecOn _ _ durable fun _ kept _ _ => kept.purge
  | reconciled => exact List.foldlRecOn _ _ durable fun _ kept _ _ => kept.reconcile

namespace Job

/-- `deserializeJob` knows no line for the dependencies or the execution time. -/
theorem readLine_blocks (j : Job) (line : Line) :
    (j.readLine line).dependList = j.dependList ∧
      (j.readLine line).executionTime = j.executionTime := by
  unfold readLine
  split
  case h_21 =>
    split <;> exact ⟨rfl, rfl⟩
  all_goals exact ⟨rfl, rfl⟩

theorem deserialize_blocks (doc server : String) (now : Time) :
    (deserialize doc server now).dependList = "" ∧
      (deserialize doc server now).executionTime = 0 := by
  refine List.foldlRecOn (motive := fun j : Job => j.dependList = "" ∧ j.executionTime = 0)
    (documentLines doc) _ ⟨rfl, rfl⟩ fun j kept line _ => ?_
  obtain ⟨depend, time⟩ := j.readLine_blocks line
  exact ⟨depend.trans kept.1, time.trans kept.2⟩

def Postponed (j : Job) (now : Time) : Prop :=
  j.state = .waiting ∧ ¬ Time.isZero j.executionTime ∧ now < j.executionTime

instance (j : Job) (now : Time) : Decidable (j.Postponed now) :=
  inferInstanceAs (Decidable (_ ∧ _ ∧ _))

end Job

namespace Server
variable {s : Server} {env start : Env} {id name : String}

def recovered (s : Server) (env : Env) (id : String) : Option Job :=
  (s.doc id).map fun doc => (Job.deserialize doc s.cfg.serverName env.now).setScript
    ((s.store.scripts.lookup id).getD "")

theorem job_recoverJob (s : Server) (env : Env) (id : String) : (recoverJob env s id).job =
    Function.update s.job id ((s.recovered env id).or (s.job id)) := by
  unfold recoverJob
  split
  case h_1 missing =>
    simp [recovered, show s.doc id = none from missing]
  case h_2 found =>
    simp [recovered, show s.doc id = some _ from found, job_addJob]

theorem recovered_recoverJob (s : Server) (env : Env) (id : String) :
    (recoverJob env s id).recovered env = s.recovered env := by
  unfold recoverJob
  split <;> rfl

theorem job_recoverJobs (ids : List String) (s : Server) (env : Env) (id : String) :
    (ids.foldl (recoverJob env) s).job id =
      if id ∈ ids then (s.recovered env id).or (s.job id) else s.job id := by
  induction ids generalizing s with
  | nil => rfl
  | cons first ids ih =>
    rw [List.foldl_cons, ih, recovered_recoverJob, job_recoverJob]
    by_cases same : id = first
    · subst same
      cases s.recovered env id <;> simp
    · simp [same]

theorem job_restoreJob (s : Server) (id : String) : (restoreJob s id).job = s.job := by
  unfold restoreJob
  split
  · rfl
  · split
    · rfl
    · exact List.foldlRecOn (motive := fun t : Server => t.job = s.job) _ _ rfl
        fun _ same _ _ => same

/-- After a start, the manager holds the jobs of the documents and no others. -/
theorem job_boot (name : String) (st : Store) (env : Env) (id : String) :
    ∃ server script, (boot name st env).job id =
      (st.jobs.lookup id).map fun doc => (Job.deserialize doc server env.now).setScript script := by
  let Fresh (t : Server) : Prop := t.job = (fun _ => none) ∧ t.store = st
  have configured : Fresh (Server.new name st).recoverServerDB := by
    unfold recoverServerDB
    split
    · exact ⟨rfl, rfl⟩
    case h_2 doc _ =>
      cases counter : Config.recoverNextJobID doc <;> exact ⟨rfl, rfl⟩
  have queued : Fresh ((Server.new name st).recoverServerDB.recoverQueues env) := by
    refine List.foldlRecOn (motive := Fresh) _ _ configured fun t fresh key _ => ?_
    unfold recoverQueue
    split <;> exact fresh
  have noded : Fresh ((Server.new name st).recoverServerDB.recoverQueues env).recoverNodes := by
    unfold recoverNodes
    cases ((Server.new name st).recoverServerDB.recoverQueues env).store.nodes <;> exact queued
  unfold boot recoverState
  generalize ((Server.new name st).recoverServerDB.recoverQueues env).recoverNodes = t at noded
  obtain ⟨empty, rfl⟩ := noded
  have restored : (((t.recoverJobs env).allJobs env).foldl restoreJob (t.recoverJobs env)).job =
      (t.recoverJobs env).job :=
    List.foldlRecOn (motive := fun u : Server => u.job = (t.recoverJobs env).job) _ _ rfl
      fun u same key _ => (u.job_restoreJob key).trans same
  refine ⟨t.cfg.serverName, (t.store.scripts.lookup id).getD "", ?_⟩
  rw [restored, recoverJobs, job_recoverJobs, empty, Option.or_none]
  split
  · rfl
  case isFalse outside =>
    have missing : t.store.jobs.lookup id = none :=
      AList.lookup_eq_none.mpr (mt (Assoc.mem_range _ _).mpr outside)
    rw [missing, Option.map_none]

/-- The job may be started: `handleRunJob` finds it `Queued` and its dependencies met. -/
def Eligible (s : Server) (env : Env) (id : String) : Prop :=
  ∃ j ∈ s.job id, j.state = .queued ∧ s.checkDependencies env j = .met

/-- No job of `s` that was kept from starting may start on the server `r`. -/
structure Blocks (env : Env) (s r : Server) : Prop where
  eligible : ∀ id, r.Eligible env id → s.Eligible env id
  held : ∀ id, ∀ j ∈ s.job id, j.state = .held → ∃ k ∈ r.job id, k.state = .held
  postponed : ∀ id, ∀ j ∈ s.job id, j.Postponed env.now →
    ∃ k ∈ r.job id, k.Postponed env.now ∧ k.executionTime = j.executionTime
  dependent : ∀ id, ∀ j ∈ s.job id, s.checkDependencies env j ≠ .met →
    ∃ k ∈ r.job id, r.checkDependencies env k ≠ .met

/-- What a crash must find: every dependency met, no job put off to a later time, and
each held job with a document. -/
def CrashSafe (s : Server) (env : Env) : Prop :=
  ∀ id ∈ s.jobMgr.jobs.keys, ∀ j ∈ s.job id, s.checkDependencies env j = .met ∧
    ¬ j.Postponed env.now ∧ (j.state = .held → s.doc id ≠ none ∧ s.doc id ≠ some "")

theorem checkDependencies_nil (s : Server) (env : Env) (none : j.dependList = "") :
    s.checkDependencies env j = .met := by
  have empty : dependencies "" = [] := by decide
  rw [checkDependencies, none, empty]
  rfl

theorem exists_doc_of_boot (found : (boot name s.store start).job id = some k) :
    ∃ doc, s.doc id = some doc ∧ ∃ server script,
      k = (Job.deserialize doc server start.now).setScript script := by
  obtain ⟨server, script, same⟩ := job_boot name s.store start id
  rw [same] at found
  obtain ⟨doc, written, rfl⟩ := Option.map_eq_some_iff.mp found
  exact ⟨doc, written, server, script, rfl⟩

theorem boot_of_doc (name : String) (start : Env) (written : s.doc id = some text) :
    ∃ server script, (boot name s.store start).job id =
      some ((Job.deserialize text server start.now).setScript script) := by
  obtain ⟨server, script, same⟩ := job_boot name s.store start id
  rw [show s.store.jobs.lookup id = some text from written, Option.map_some] at same
  exact ⟨server, script, same⟩

@[simp] theorem deserialize_blank (server : String) (now : Time) :
    (Job.deserialize "" server now).state = .transit := rfl

/-- A server whose documents record its jobs keeps the blocked ones blocked through a
crash exactly if the crash finds it safe. -/
theorem Durable.blocks_iff (durable : s.Durable []) :
    Blocks env s (boot name s.store start) ↔ s.CrashSafe env := by
  constructor
  · intro blocks id _ j found
    refine ⟨?_, ?_, fun held => ?_⟩
    · by_contra unmet
      obtain ⟨k, member, blocked⟩ := blocks.dependent id j found unmet
      obtain ⟨doc, -, server, script, rfl⟩ := exists_doc_of_boot member
      exact blocked (checkDependencies_nil _ env (Job.deserialize_blocks doc server start.now).1)
    · intro postponed
      obtain ⟨k, member, ⟨-, dated, -⟩, -⟩ := blocks.postponed id j found postponed
      obtain ⟨doc, -, server, script, rfl⟩ := exists_doc_of_boot member
      exact dated (congrArg Time.isZero (Job.deserialize_blocks doc server start.now).2)
    · obtain ⟨k, member, state⟩ := blocks.held id j found held
      obtain ⟨doc, written, server, script, rfl⟩ := exists_doc_of_boot member
      rw [written]
      refine ⟨by simp, ?_⟩
      rintro ⟨⟩
      simp at state
  · intro safe
    have clear (id : String) (j : Job) (found : s.job id = some j) :=
      safe id (AList.mem_keys.mp (Assoc.mem_of_lookup found)) j found
    have recorded (id doc : String) (written : s.doc id = some doc) (other : doc ≠ "") :=
      (durable.recorded id (by simp) doc written).resolve_left other
    refine ⟨?_, ?_, ?_, ?_⟩
    · rintro id ⟨k, member, ready, -⟩
      obtain ⟨doc, written, server, script, rfl⟩ := exists_doc_of_boot member
      have other : doc ≠ "" := by
        rintro rfl
        simp at ready
      obtain ⟨d, rfl, plain, queued, -⟩ := recorded id doc written other
      rw [Job.setScript_state, Job.deserialize_state plain] at ready
      obtain ⟨j, found, state⟩ := queued ready
      exact ⟨j, found, state, (clear id j found).1⟩
    · intro id j found held
      obtain ⟨saved, other⟩ := (clear id j found).2.2 held
      obtain ⟨doc, written⟩ := Option.ne_none_iff_exists'.mp saved
      obtain ⟨d, rfl, plain, -, kept⟩ := recorded id doc written fun blank => other (blank ▸ written)
      obtain ⟨server, script, same⟩ := boot_of_doc name start written
      refine ⟨_, same, ?_⟩
      rw [Job.setScript_state, Job.deserialize_state plain]
      exact kept j found held
    · exact fun id j found postponed => absurd postponed (clear id j found).2.1
    · exact fun id j found unmet => absurd (clear id j found).1 unmet

theorem boot_empty (name : String) (backend : Backend) (env : Env) :
    boot name { backend } env = Server.new name { backend } := by
  simp [boot, recoverState, recoverServerDB, recoverQueues, recoverNodes, recoverJobs, allJobs,
    Server.new]

/-- A step whose changes the documents keep up with. -/
def Recording (s : Server) (env : Env) (step : Step) : Prop :=
  s.OneLineNames env ∧ step.Acknowledged s env ∧ s.Persisted env step

theorem Durable.step {step : Step} (durable : s.Durable [] ∧ s.Ahead)
    (recording : s.Recording env step) :
    (s.step env step).Durable [] ∧ (s.step env step).Ahead := by
  obtain ⟨durable, next, numbered⟩ := durable
  obtain ⟨names, answered, persisted⟩ := recording
  have room : step.HasRoom s := by
    unfold Step.HasRoom
    split
    · exact persisted.1
    · trivial
  exact ⟨(s.step_effect env step).durable durable names answered persisted numbered.nextIsNew,
    Ahead.step ⟨next, numbered⟩ env step room⟩

end Server

/-- After every run of acknowledged steps that the documents keep up with, a crash keeps
the blocked jobs blocked exactly if it finds no job that waits for a time or for another
job, and none held without a document. -/
theorem blocks_survive_crash_iff (name : String) (backend : Backend) (first env start : Env)
    (steps : List (Env × Step))
    (recording : Along (fun s l => s.step l.1 l.2) (fun s l => s.Recording l.1 l.2)
      (Server.boot name { backend } first) steps) :
    let s := steps.foldl (fun s l => s.step l.1 l.2) (Server.boot name { backend } first)
    Server.Blocks env s (Server.boot name s.store start) ↔ s.CrashSafe env := by
  have empty : (Server.boot name { backend } first).Durable [] ∧
      (Server.boot name { backend } first).Ahead := by
    rw [Server.boot_empty]
    exact ⟨⟨by simp [Server.new, Server.job], fun _ _ => .unwritten⟩, .new name backend⟩
  have preserves : ∀ (s : Server) (l : Env × Step), s.Durable [] ∧ s.Ahead →
      s.Recording l.1 l.2 → (s.step l.1 l.2).Durable [] ∧ (s.step l.1 l.2).Ahead :=
    fun _ _ => Server.Durable.step
  exact (recording.invariant preserves empty).1.blocks_iff

instance : (reply : Reply) → Decidable reply.Acknowledged
  | .error _ | .silent => inferInstanceAs (Decidable False)
  | .ok | .jobID _ _ | .status _ | .text _ => inferInstanceAs (Decidable True)

instance (s : Server) (env : Env) (step : Step) : Decidable (step.Acknowledged s env) := by
  unfold Step.Acknowledged
  split <;> infer_instance

instance (s : Server) (env : Env) (step : Step) : Decidable (s.Recording env step) := by
  refine @instDecidableAnd _ _ ?_ (@instDecidableAnd _ _ inferInstance ?_)
  · unfold Server.OneLineNames
    infer_instance
  induction step using Step.casesOn with
  | request r =>
    induction r using Request.casesOn with
    | jobScript _ _ finish =>
      induction finish using Bool.casesOn <;> unfold Server.Persisted <;> infer_instance
    | _ => unfold Server.Persisted; infer_instance
  | _ => unfold Server.Persisted; infer_instance

instance (s : Server) (env : Env) (id : String) : Decidable (s.Eligible env id) :=
  inferInstanceAs (Decidable (∃ j ∈ _, _))

instance (s : Server) (env : Env) : Decidable (s.CrashSafe env) :=
  inferInstanceAs (Decidable (∀ id ∈ _, ∀ j ∈ _, _))

/-- A job is submitted with the given attributes and committed. -/
def submittedWith (attrs : List Attr) : List Request :=
  [.manager (.createQueue "batch" []), .queueJob "alice@host" "batch" attrs, .commit "0.server"]

def afterCrash (s : Server) : Server := Server.boot "server" s.store { now := 2 }

/-- A hold that was asked for at submission. -/
def heldAtSubmission : List (Env × Step) :=
  atOnce (submittedWith [{ name := "Hold_Types", value := "u" }])

theorem blocks_survive_crash_iff_held :
    let s := heldAtSubmission.foldl (fun s l => s.step l.1 l.2) (Server.boot "server" {} { now := 0 })
    (∃ j ∈ s.job "0.server", j.state = .held) ∧ Server.Blocks { now := 1 } s (afterCrash s) := by
  have recording : Along (fun s l => s.step l.1 l.2) (fun s l => s.Recording l.1 l.2)
      (Server.boot "server" {} { now := 0 }) heldAtSubmission := by decide +kernel
  refine ⟨by decide +kernel, ?_⟩
  exact (blocks_survive_crash_iff "server" .file { now := 0 } { now := 1 } { now := 2 } _
    recording).mpr (by decide +kernel)

/-- `HoldJob` on a queued job. -/
def heldLater : List (Env × Step) := atOnce (submittedWith [] ++ [.holdJob "0.server"])

/-- `HoldJob` is acknowledged and not saved, so a crash lets the held job start. -/
theorem hold_lost_in_crash :
    let s := heldLater.foldl (fun s l => s.step l.1 l.2) (Server.boot "server" {} { now := 0 })
    Along (fun s l => s.step l.1 l.2) (fun s l => l.2.Acknowledged s l.1)
        (Server.boot "server" {} { now := 0 }) heldLater ∧
      ¬ Server.Blocks { now := 1 } s (afterCrash s) := by
  refine ⟨by decide +kernel, fun blocks => ?_⟩
  have started := blocks.eligible "0.server" (by decide +kernel)
  revert started
  decide +kernel

end OpenTorque.Pbs
