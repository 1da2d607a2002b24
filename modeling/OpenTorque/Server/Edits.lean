import Mathlib.Logic.Relation
import OpenTorque.Server.Effect

/-! The operations on jobs as paths of elementary changes. The loops over tasks, nodes and
jobs are followed once; what every change keeps is then kept by the operations. -/
namespace OpenTorque.Pbs

/-- A queue without its counters. -/
def Queue.policy (q : Queue) : Queue := q.recount 0 .zero

namespace Server

/-- One elementary change: to a job that is `touched`, which it does not start, to the
documents or to a counter. A `wide` one may also drop a document or change a node. -/
inductive Edit (env : Env) (touched : String → Prop) (wide : Prop) (s : Server) : Server → Prop where
  | put {x : String} {j : Job} (listed : touched x) (known : x ∈ s.jobMgr.jobs)
      (stopped : wide ∨ j.state ≠ .running ∨
        ∃ k, s.jobMgr.jobs.lookup x = some k ∧ j.state = k.state ∧ j.execHost = k.execHost) :
      Edit env touched wide s (s.putJob x j)
  | state {x : String} (listed : touched x) (stopped : state ≠ .running) :
      Edit env touched wide s (s.updateJobState env x state)
  | add {x : String} (listed : touched (arrayTaskID x s.cfg.serverName index)) :
      Edit env touched wide s (addTask env x j s index)
  | remove {x : String} (listed : touched x) : Edit env touched wide s (s.removeJob x)
  | unscript {x : String} : Edit env touched wide s (s.onStore (·.removeScriptFile x))
  | save {x : String} (known : x ∈ s.jobMgr.jobs) : Edit env touched wide s (s.saveJob x j)
  | count : Edit env touched wide s (s.onQueue name (·.incrJobCount state))
  | recount (change : Queue → Queue) (open_ : wide) (blind : ∀ q, (change q).policy = q.policy) :
      Edit env touched wide s (s.onQueue name change)
  | forget {x : String} (open_ : wide) : Edit env touched wide s (s.onStore (·.deleteJob x))
  | release {x : String} (open_ : wide) :
      Edit env touched wide s (s.onNode name (·.releaseJob x slots))
  | down (open_ : wide) : Edit env touched wide s (s.onNode name (·.markDown))

variable {s t u : Server} {env : Env} {touched : String → Prop} {wide : Prop} {id given : String} {j : Job}

theorem mem_of_getJob (found : s.getJob env given = some (id, j)) : id ∈ s.jobMgr.jobs :=
  Assoc.mem_of_lookup (s.jobMgr.getJob_lookup _ _ found)

abbrev Path (env : Env) (touched : String → Prop) (wide : Prop) : Server → Server → Prop :=
  Relation.ReflTransGen (Edit env touched wide)

namespace Path

theorem edit (path : Path env touched wide s t) (edit : Edit env touched wide t u) :
    Path env touched wide s u := .tail path edit

theorem foldl {round : Server → α → Server} (items : List α)
    (each : ∀ t, ∀ a ∈ items, Path env touched wide t (round t a)) :
    Path env touched wide s (items.foldl round s) :=
  List.foldlRecOn (motive := Path env touched wide s) items _ .refl
    fun t before a member => before.trans (each t a member)

theorem mem_putJob : id ∈ ((s.putJob id j).onQueue name change).jobMgr.jobs := by
  simp [JobManager.put]

theorem enterQueue (listed : touched id) (known : id ∈ s.jobMgr.jobs) (stopped : j.state ≠ .running) :
    Path env touched wide s (s.enterQueue env id j) := by
  have put : Path env touched wide s (s.putJob id j) := .single (.put listed known (.inr (.inl stopped)))
  simp only [Server.enterQueue]
  split
  · exact (put.edit .count).edit (.save mem_putJob)
  · refine ((put.edit (.state listed ?_)).edit .count).edit (.save (by simp))
    unfold Job.committedState
    split_ifs <;> decide

theorem commitJobInstance (s : Server) (owner : String) (listed : touched id) :
    Path env touched wide s (s.commitJobInstance env id owner).1 := by
  unfold Server.commitJobInstance
  split
  · exact .refl
  case h_2 j found =>
    have known := Assoc.mem_of_lookup found
    have placed : Path env touched wide s (s.putJob id (j.setDefaultOutputPaths id env.hostname)) :=
      .single (.put listed known (.inr <| .inr ⟨j, found, by simp [Job.setDefaultOutputPaths],
        by simp [Job.setDefaultOutputPaths]⟩))
    have queued : Path env touched wide s ((s.putJob id (j.setDefaultOutputPaths id
        env.hostname)).updateJobState env id .queued) := placed.edit (.state listed nofun)
    simp only
    split
    · exact queued
    · exact queued.trans (enterQueue listed (by simp) (by simp))

theorem discard (s : Server) (listed : touched id) : Path env touched wide s (s.discard id) :=
  .edit (.single (.remove listed)) .unscript

theorem commitTasks (owner : String) (ids : List String) (s : Server) (listed : ∀ id ∈ ids, touched id) :
    Path env touched wide s (Server.commitTasks env owner s ids).1 := by
  induction ids generalizing s with
  | nil => exact .refl
  | cons id ids ih =>
    rw [List.forall_mem_cons] at listed
    have first : Path env touched wide s _ := commitJobInstance s owner listed.1
    rw [Server.commitTasks]
    split
    case h_1 committed => rwa [committed] at first
    case h_2 committed =>
      rw [committed] at first
      exact first.trans (ih _ listed.2)

theorem processJobArray (owner : String) (listed : touched id)
    (tasks : ∀ values, parseArraySpec j.jobArrayReq = .indices values →
      ∀ i ∈ values, touched (arrayTaskID id s.cfg.serverName i)) :
    Path env touched wide s (s.processJobArray env id j owner).1 := by
  rw [Server.processJobArray]
  split
  · exact .refl
  split
  case h_4 values _ spec =>
    have each : ∀ task ∈ values.map (arrayTaskID id s.cfg.serverName), touched task := by
      simpa using tasks values spec
    have added : (values.foldl (addTask env id j) s).cfg = s.cfg ∧
        Path env touched wide s (values.foldl (addTask env id j) s) :=
      List.foldlRecOn (motive := fun t : Server => t.cfg = s.cfg ∧ Path env touched wide s t) values
        (addTask env id j) ⟨rfl, .refl⟩ fun t before i member => ⟨before.1,
          .edit before.2 (.add (before.1 ▸ tasks values spec i member))⟩
    have path := added.2.trans (commitTasks owner _ _ each)
    simp only
    split
    case h_1 committed =>
      rw [committed] at path
      exact path.trans (foldl _ fun t task member => discard t (each task member))
    case h_2 committed =>
      rw [committed] at path
      exact path.trans (discard _ listed)
  all_goals exact .refl

/-- A commit changes the job, its tasks and what the client's id is taken for. -/
theorem commit (listed : touched id) (named : touched given)
    (tasks : ∀ values, parseArraySpec j.jobArrayReq = .indices values →
      ∀ i ∈ values, touched (arrayTaskID id s.cfg.serverName i)) :
    Path env touched wide s (s.commit env given id j reply).server := by
  have array : Path env touched wide s _ := processJobArray j.owner listed tasks
  unfold Server.commit
  split
  case h_1 processed => rwa [processed] at array
  case h_2 processed =>
    rw [processed] at array
    exact array.trans (discard _ named)
  case h_3 processed => rwa [processed] at array
  case h_4 t processed =>
    rw [processed] at array
    have single := array.trans (commitJobInstance t j.owner listed)
    split
    case h_1 committed =>
      rw [committed] at single
      exact single.trans (discard _ named)
    case h_2 committed => rwa [committed] at single

theorem releaseOn (s : Server) (names : List String) (slots : Int) :
    Path env touched True s (s.releaseOn names id slots) :=
  foldl names fun _ _ _ => .single (.release trivial)

@[simp] theorem jobMgr_releaseOn (s : Server) (names : List String) (slots : Int) :
    (s.releaseOn names id slots).jobMgr = s.jobMgr :=
  List.foldlRecOn (motive := fun t : Server => t.jobMgr = s.jobMgr) names _ rfl fun _ same _ _ => same

theorem requeue (listed : touched id) (known : id ∈ s.jobMgr.jobs) :
    Path env touched True s (s.requeue env id j) := by
  have put : Path env touched True s (s.putJob id ((j.setExec "" 0).setState env.now .queued)) :=
    .single (.put listed known (.inl trivial))
  exact (put.edit (.recount (·.transferJobState j.state .queued) trivial fun _ => rfl)).edit
    (.save mem_putJob)

theorem delete (named : touched given) : Path env touched True s (s.delete env given j) := by
  have rest : ∀ t : Server, Path env touched True t
      ((((t.onQueue j.queue (·.decrJobCount j.state)).updateJobState env given .complete).onStore
        (·.deleteJob given)).removeJob given) := by
    intro t
    have counted : Path env touched True t (t.onQueue j.queue (·.decrJobCount j.state)) :=
      .single (.recount _ trivial fun _ => rfl)
    exact ((counted.edit (.state named (by decide))).edit (.forget trivial)).edit (.remove named)
  simp only [Server.delete]
  split
  · exact (releaseOn s _ _).trans (rest _)
  · exact rest s

theorem finish {done : Job} (listed : touched id) (known : id ∈ s.jobMgr.jobs) :
    Path env touched True s (s.finish env given id j done) := by
  have put : Path env touched True s (s.putJob id done) := .single (.put listed known (.inl trivial))
  simp only [Server.finish]
  split
  · exact (put.edit (.recount (·.transferJobState j.state .complete) trivial fun _ => rfl)).edit
      (.save mem_putJob)
  · have released : Path env touched True s ((s.putJob id done).releaseNodeResources env j.execHost given) :=
      put.trans (releaseOn _ _ _)
    refine (released.edit (.recount (·.transferJobState j.state .complete) trivial fun _ => rfl)).edit
      (.save ?_)
    simp [releaseNodeResources, JobManager.put]

theorem promote (listed : touched id) : Path env touched wide s (Server.promote env s id) := by
  unfold Server.promote
  split
  · exact .refl
  · split
    · exact .single (.state listed nofun)
    · exact .refl

theorem purge (listed : touched id) : Path env touched True s (Server.purge env s id) := by
  unfold Server.purge
  split
  · exact .refl
  case h_2 j _ =>
    split
    · have counted : Path env touched True s (s.onQueue j.queue (·.decrJobCount .complete)) :=
        .single (.recount _ trivial fun _ => rfl)
      exact (counted.edit (.forget trivial)).edit (.remove listed)
    · exact .refl

theorem requeueFrom (every : ∀ x, touched x) :
    Path env touched True s (Server.requeueFrom env name s given) := by
  unfold Server.requeueFrom
  split
  · exact .refl
  case h_2 found =>
    split
    · exact .head (.release trivial) (requeue (every _) (mem_of_getJob found))
    · exact .refl

theorem checkNode (every : ∀ x, touched x) : Path env touched True s (Server.checkNode env s name) := by
  have down : Path env touched True s (s.onNode name (·.markDown)) := .single (.down trivial)
  unfold Server.checkNode
  split
  · exact .refl
  · split
    · unfold requeueNodeJobs
      split
      · exact down
      · split
        · exact down
        · exact down.trans (foldl _ fun _ _ _ => requeueFrom every)
    · exact .refl

theorem reconcile {running : String → Option (List String)} (listed : touched id) :
    Path env touched True s (Server.reconcile env running s id) := by
  unfold Server.reconcile
  split
  · exact .refl
  case h_2 found =>
    dsimp only
    split
    · exact .refl
    · split
      · exact .refl
      · split
        · exact .refl
        · refine (releaseOn s _ _).trans (requeue listed ?_)
          simpa using Assoc.mem_of_lookup found

end Path
end Server
end OpenTorque.Pbs
