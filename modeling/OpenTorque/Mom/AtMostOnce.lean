import OpenTorque.Core.Transition
import OpenTorque.Server.Lifecycle
import OpenTorque.Server.Occupancy
import OpenTorque.Server.Assignment
import OpenTorque.Mom.Cluster

/-! A job runs at most once at a time. A start of the job is a token: it is with the
dispatch until the daemon starts a process and with the process from then on. While the
token exists the server must not take the job to be startable again. It does so when the
reply to a `Commit` is lost, when the job is rerun, when its node is silent for too long
and when a client commits it again. -/
namespace OpenTorque.Pbs

/-- The id may be found under the text, in whatever order the jobs are searched. -/
def JobManager.Names (m : JobManager) (given id : String) : Prop :=
  id = Text.trimSpace given ∨ id = Text.trimSpace given ++ "." ++ m.serverName ∨
    m.isShortFor (Text.trimSpace given) id = true

theorem JobManager.names_of_getJob {m : JobManager} {id : String}
    (found : m.getJob order given = some (id, j)) :
    m.Names given id := (stands_of_getJob found).imp_right And.right

namespace Server
variable {s t : Server} {env : Env} {id : String}

/-- What the rounds of `checkNodes` keep for a job that no node they declare down lists. -/
structure Spared (s : Server) (env : Env) (id : String) (t : Server) : Prop where
  job : t.job id = s.job id
  fewer : s.Fewer t
  fresh : ∀ name, t.stale env name → s.stale env name
  named : t.jobMgr.serverName = s.jobMgr.serverName

namespace Spared

theorem requeueFrom (spared : s.Spared env id t) (apart : ¬ s.jobMgr.Names jid id) (name : String) :
    s.Spared env id (Server.requeueFrom env name t jid) := by
  have fewer : s.Fewer (Server.requeueFrom env name t jid) :=
    spared.fewer.trans (.path (.requeueFrom fun _ => trivial))
  revert fewer
  unfold Server.requeueFrom
  split
  · exact fun _ => spared
  case h_2 key j found =>
    split
    · intro fewer
      refine ⟨?_, fewer, fun x old => ?_, spared.named⟩
      · have other : id ≠ key := by
          rintro rfl
          have named := JobManager.names_of_getJob found
          rw [JobManager.Names, JobManager.isShortFor, spared.named] at named
          exact apart named
        rw [job_requeue, Function.update_of_ne other]
        exact spared.job
      · exact spared.fresh x (Drained.stale_onNode old fun _ => ⟨rfl, fun down => down⟩)
    · exact fun _ => spared

theorem checkNode (spared : s.Spared env id t)
    (apart : ∀ name, s.stale env name → ∀ jid ∈ s.assigned name, ¬ s.jobMgr.Names jid id)
    (name : String) : s.Spared env id (Server.checkNode env t name) := by
  unfold Server.checkNode
  split
  · exact spared
  case h_2 n found =>
    split
    case isFalse => exact spared
    case isTrue old =>
      have stale : s.stale env name := spared.fresh name (by simpa [Server.stale, found] using old)
      have marked : s.Spared env id (t.onNode name (·.markDown)) :=
        ⟨spared.job, spared.fewer.trans (Fewer.onNode fun _ => rfl), fun x old =>
          spared.fresh x (Drained.stale_onNode old fun _ => ⟨rfl, fun _ => rfl⟩), spared.named⟩
      unfold requeueNodeJobs
      split
      · exact marked
      split
      · exact marked
      case h_2 down present =>
        refine List.foldlRecOn down.assignedJobs _ marked fun u kept jid member => ?_
        have listed : jid ∈ (t.onNode name (·.markDown)).assigned name := by
          rw [assigned, present]
          exact member
        exact kept.requeueFrom (apart name stale jid (marked.fewer name listed)) name

end Spared

theorem checkNodes_spares
    (apart : ∀ name, s.stale env name → ∀ jid ∈ s.assigned name, ¬ s.jobMgr.Names jid id) :
    (s.checkNodes env).job id = s.job id :=
  (List.foldlRecOn (motive := s.Spared env id) _ _ ⟨rfl, .refl s, fun _ => (·), rfl⟩
    fun _ spared name _ => spared.checkNode apart name).job

theorem reconcile_spares {answer : String → Option (List String)}
    (listed : ∀ j, s.job id = some j → ∀ running,
      answer (Text.before '/' (Text.before '+' j.execHost)) = some running → id ∈ running) :
    (s.reconcileRunningJobsWithMOMs env answer).job id = s.job id := by
  refine List.foldlRecOn (motive := fun t : Server => t.job id = s.job id) _ _ rfl
    fun t same x _ => ?_
  rw [reconcile]
  split
  · exact same
  case h_2 j found =>
    simp only
    split
    · exact same
    split
    · exact same
    case h_2 running answered =>
      split
      · exact same
      case isFalse missing =>
        have other : id ≠ x := by
          rintro rfl
          exact missing (listed j (same.symm.trans found) running answered)
        rw [requeueRecoveredJob, job_requeue, Function.update_of_ne other, job_releaseOn]
        exact same

def pending (s : Server) (id : String) : Nat := s.dispatches.countP (·.job = id)

/-- The steps that do not make a busy job startable. -/
def LetsRun (s : Server) (env : Env) (id : String) (busy : Prop) : Step → Prop
  | .request (.queueJob ..) => s.jobMgr.nextJobID < maxInt
  | .request (.commit given) | .request (.jobScript given _ true) =>
    busy → ∀ found ∈ s.getJob env given, id ∉ found.1 :: s.tasksOf found.1 found.2
  | .request (.modifyJob given attrs) =>
    busy → ∀ found ∈ s.getJob env given, found.1 = id → ∀ a ∈ attrs, Job.KeepsState env.now a
  | .request (.rerunJob given) =>
    busy → ∀ found ∈ s.getJob env given, found.1 = id → found.2.state ≠ .running
  | .checkNodes =>
    busy → ∀ name, s.stale env name → ∀ jid ∈ s.assigned name, ¬ s.jobMgr.Names jid id
  | .reconcile answer =>
    busy → ∀ j, s.job id = some j → ∀ running,
      answer (Text.before '/' (Text.before '+' j.execHost)) = some running → id ∈ running
  | _ => True

theorem LetsRun.commits {step : Step} (lets : s.LetsRun env id busy step) (now : busy)
    (commits : Commits s env given key step j) : id ∉ key :: s.tasksOf key j := by
  cases commits with
  | commit found => exact lets now _ found
  | script found => exact lets now _ found

theorem LetsRun.room {step : Step} (lets : s.LetsRun env id busy step) : step.HasRoom s := by
  unfold Step.HasRoom
  split
  · exact lets
  · trivial

end Server

theorem Server.Numbered.later {s : Server} {step : Step} {next : Int} (numbered : s.Numbered next)
    (env : Env) (room : step.HasRoom s) : ∃ next', (s.step env step).Numbered next' ∧ next ≤ next' := by
  rcases (s.step_effect env step).numbered_next numbered room with same | more
  · exact ⟨next, same, le_rfl⟩
  · exact ⟨next + 1, more, by omega⟩

def Job.Away (j : Job) : Prop := j.state = .running ∨ j.state = .exiting ∨ j.state = .complete

namespace Job

theorem Away.of_state {j k : Job} (away : j.Away) (same : k.state = j.state) : k.Away := by
  rwa [Away, same]

theorem Away.not_ready {j : Job} (away : j.Away) : ¬ (j.state = .queued ∨ j.state = .provisioning) := by
  rcases away with state | state | state <;> simp [state]

end Job

/-- One step of the server, other than those that look at nodes, on a busy job. -/
theorem Fate.away {s : Server} {step : Step} {id : String} {next : Int} (fate : Fate s env step id after)
    (spontaneous : Mom.Cluster.Spontaneous step)
    (calm : step ≠ .checkNodes ∧ ∀ answer, step ≠ .reconcile answer)
    (numbered : s.Numbered next) (issued : Issued next id) (lets : s.LetsRun env id busy step) (now : busy)
    (away : ∀ j, s.job id = some j → j.Away) : ∀ k ∈ after, k.Away := by
  have here : ∀ {given j}, s.getJob env given = some (id, j) → j.Away :=
    fun found => away _ (Server.job_of_getJob found)
  cases fate with
  | kept => exact fun k found => away k found
  | deleted | purged | discarded => simp
  | submitted => exact absurd issued numbered.not_issued
  | scripted found =>
    rintro k ⟨⟩
    exact (here found).of_state rfl
  | entered commits => exact absurd (List.mem_cons_self ..) (lets.commits now commits)
  | turnedAway commits => exact absurd (List.mem_cons_self ..) (lets.commits now commits)
  | task commits spec member named =>
    refine absurd (List.mem_cons_of_mem _ ?_) (lets.commits now commits)
    rw [named]
    exact Server.mem_tasksOf spec member
  | held found idle => rcases here found with state | state | state <;> simp [state] at idle
  | released found held => rcases here found with state | state | state <;> simp [state] at held
  | cleared found =>
    rintro k ⟨⟩
    exact (here found).of_state rfl
  | modified found =>
    rintro k ⟨⟩
    exact (here found).of_state (Job.applyJobAttrs_keepsState (lets now _ found rfl) _)
  | moved found =>
    rintro k ⟨⟩
    exact (here found).of_state rfl
  | rerun found state =>
    rcases state with running | queued
    · exact absurd running (lets now _ found rfl)
    · exact absurd (.inl queued) (here found).not_ready
  | ordered found =>
    rintro k ⟨⟩
    exact (away _ found).of_state rfl
  | commented found =>
    rintro k ⟨⟩
    exact (here found).of_state rfl
  | started found ready => exact absurd ready (here found).not_ready
  | ended =>
    rintro k ⟨⟩
    exact .inr (.inr rfl)
  | dispatched | undone => exact spontaneous.elim
  | unreachable => exact absurd rfl calm.1
  | promoted found waiting =>
    rcases away _ found with state | state | state <;> simp [state] at waiting
  | reconciled => exact absurd rfl (calm.2 _)

/-- The end of a dispatch puts back at most the job of the dispatch. -/
theorem Fate.away_ended {s : Server} {step : Step} {id : String} (fate : Fate s env step id after)
    (ends : step = .dispatchFailed d ∧ d.job ≠ id ∨ ∃ session, step = .dispatchDone d session)
    (away : ∀ j, s.job id = some j → j.Away) : ∀ k ∈ after, k.Away := by
  rcases ends with ⟨rfl, other⟩ | ⟨session, rfl⟩
  · cases fate with
    | kept => exact away
    | discarded commits | entered commits | turnedAway commits | task commits => cases commits
    | undone => exact absurd rfl other
  · cases fate with
    | kept => exact away
    | discarded commits | entered commits | turnedAway commits | task commits => cases commits
    | dispatched found =>
      rintro k ⟨⟩
      exact (away _ found).of_state rfl

end OpenTorque.Pbs

namespace OpenTorque.Mom
open Pbs (Server Env Dispatch Issued)
open Transition (Along Reaches)

/-- The token of a job: a dispatch under way or a live process on a daemon. -/
def Busy (id : String) (s : Server) (runs : String → Prop) : Prop :=
  0 < s.pending id ∨ ∃ mom, runs mom

/-- There is at most one token of the job, and while there is one the server does not take
the job to be startable. -/
structure Single (id : String) (s : Server) (runs : String → Prop) : Prop where
  known : ∃ next, s.Numbered next ∧ (Busy id s runs → Issued next id)
  one : s.pending id ≤ 1
  apart : 0 < s.pending id → ∀ mom, ¬ runs mom
  once : ∀ mom mom', runs mom → runs mom' → mom = mom'
  away : Busy id s runs → ∀ j, s.job id = some j → j.Away

namespace Single
variable {id : String} {s t : Server} {d : Dispatch} {env : Env} {runs runs' : String → Prop}

theorem idle (ahead : s.Ahead) (quiet : s.pending id = 0) (nowhere : ∀ mom, ¬ runs mom) :
    Single id s runs := by
  have free : ¬ Busy id s runs := by
    rintro (pending | ⟨mom, now⟩)
    · omega
    · exact nowhere mom now
  obtain ⟨next, numbered⟩ := ahead
  exact ⟨⟨next, numbered, fun now => absurd now free⟩, by omega, by omega,
    fun mom _ now => absurd now (nowhere mom), fun now => absurd now free⟩

theorem mono (single : Single id s runs) (fewer : ∀ mom, runs' mom → runs mom) : Single id s runs' := by
  have busy : Busy id s runs' → Busy id s runs := fun busy => busy.imp_right fun ⟨mom, now⟩ => ⟨mom, fewer mom now⟩
  obtain ⟨next, numbered, issued⟩ := single.known
  exact ⟨⟨next, numbered, issued ∘ busy⟩, single.one, fun pending mom now => single.apart pending mom (fewer mom now),
    fun mom mom' first second => single.once mom mom' (fewer mom first) (fewer mom' second),
    fun now => single.away (busy now)⟩

/-- A step of the server that neither starts the job nor ends a dispatch of it. -/
theorem of_same (single : Single id s runs)
    (later : ∀ next, s.Numbered next → ∃ next', t.Numbered next' ∧ next ≤ next')
    (same : t.pending id = s.pending id)
    (away : Busy id s runs → ∀ k, t.job id = some k → k.Away) : Single id t runs := by
  have busy : Busy id t runs → Busy id s runs := by
    rw [Busy, Busy, same]
    exact (·)
  obtain ⟨next, numbered, issued⟩ := single.known
  obtain ⟨next', numbered', le⟩ := later next numbered
  exact ⟨⟨next', numbered', fun now => (issued (busy now)).mono le⟩, same ▸ single.one,
    same ▸ single.apart, single.once, fun now => away (busy now)⟩

/-- The job `id`, if the step starts it, asks for one node. -/
def AsksOne (id : String) (s : Server) (env : Env) : Pbs.Step → Prop
  | .request (.runJob given _) => ∀ found ∈ s.getJob env given, found.1 = id → found.2.nodeRequest.1 ≤ 1
  | _ => True

theorem pending_step {step : Pbs.Step} (spontaneous : Cluster.Spontaneous step)
    (asks : AsksOne id s env step) : (s.step env step).pending id = s.pending id ∨
      ∃ given j, s.getJob env given = some (id, j) ∧ (j.state = .queued ∨ j.state = .provisioning) ∧
        (s.step env step).pending id = s.pending id + 1 ∧
        ((s.step env step).job id).any (·.state = .running) := by
  have books := (s.step_effect env step).books
  generalize s.step env step = t at books
  cases books with
  | same books | authenticated books =>
    exact .inl (congrArg (·.2.countP (·.job = id)) books)
  | detached books =>
    refine .inl ((congrArg (·.2.countP (·.job = id)) books).trans ?_)
    simp only [Server.books, Server.detach_dispatches, List.countP_map]
    refine List.countP_congr fun d _ => ?_
    simp only [Function.comp]
    split <;> rfl
  | dispatched | undone => exact spontaneous.elim
  | @started _ given dest key j names found ready single books running =>
    have dispatches : t.dispatches = _ := congrArg Prod.snd books
    simp only [Server.pending, dispatches, List.countP_append, List.countP_map]
    by_cases own : key = id
    · subst own
      refine .inr ⟨given, j, found, ready, ?_, running⟩
      simp [Function.comp_def, single (asks _ found rfl)]
    · simp [Function.comp_def, own]

theorem away_step {step : Pbs.Step} (single : Single id s runs) (spontaneous : Cluster.Spontaneous step)
    (lets : s.LetsRun env id (Busy id s runs) step) (now : Busy id s runs) :
    ∀ k, (s.step env step).job id = some k → k.Away := by
  obtain ⟨next, numbered, issued⟩ := single.known
  have away := single.away now
  by_cases calm : step ≠ .checkNodes ∧ ∀ answer, step ≠ .reconcile answer
  · exact ((s.step_effect env step).fate id).away spontaneous calm numbered (issued now) lets now away
  · have looks : step = .checkNodes ∨ ∃ answer, step = .reconcile answer := by
      by_contra neither
      exact calm ⟨fun same => neither (.inl same), fun answer same => neither (.inr ⟨answer, same⟩)⟩
    rcases looks with rfl | ⟨answer, rfl⟩
    · rwa [show (s.step env .checkNodes).job id = s.job id from Server.checkNodes_spares (lets now)]
    · rwa [show (s.step env (.reconcile answer)).job id = s.job id from Server.reconcile_spares (lets now)]

theorem step {step : Pbs.Step} (single : Single id s runs) (spontaneous : Cluster.Spontaneous step)
    (asks : AsksOne id s env step) (lets : s.LetsRun env id (Busy id s runs) step) :
    Single id (s.step env step) runs := by
  obtain ⟨next, numbered, issued⟩ := single.known
  obtain ⟨next', numbered', later⟩ := numbered.later env lets.room
  rcases pending_step spontaneous asks with same | ⟨given, j, found, ready, more, running⟩
  · exact single.of_same (fun _ numbered => numbered.later env lets.room) same (single.away_step spontaneous lets)
  · -- a job that can be started has no token yet
    have idle : ¬ Busy id s runs := fun now =>
      (single.away now j (Server.job_of_getJob found)).not_ready ready
    have alone : s.pending id = 0 ∧ ∀ mom, ¬ runs mom := by
      simpa [Busy] using idle
    refine ⟨⟨next', numbered', fun _ => (numbered.getJob found).mono later⟩, by omega,
      fun _ => alone.2, single.once, fun _ k now => ?_⟩
    rw [now] at running
    exact .inl (by simpa using running)

theorem pending_ended (id : String) (listed : d ∈ s.dispatches)
    (ended : t.books = (s.endDispatch d).books) :
    t.pending id + (if d.job = id then 1 else 0) = s.pending id := by
  have dispatches : t.dispatches = s.dispatches.erase d := congrArg Prod.snd ended
  have positive : d.job = id → 0 < s.dispatches.countP (·.job = id) := fun own =>
    List.countP_pos_iff.mpr ⟨d, listed, by simpa using own⟩
  rw [Server.pending, dispatches, List.countP_erase, Server.pending]
  simp only [listed, true_and, decide_eq_true_eq]
  split
  case isTrue own =>
    have := positive own
    omega
  case isFalse => rfl

/-- After the end of its only dispatch a job has no token but the process that it got. -/
theorem of_ended (single : Single id s runs) (listed : d ∈ s.dispatches) (own : d.job = id)
    (ended : t.books = (s.endDispatch d).books)
    (later : ∀ next, s.Numbered next → ∃ next', t.Numbered next' ∧ next ≤ next')
    (once : ∀ mom mom', runs' mom → runs' mom' → mom = mom')
    (away : (∀ j, s.job id = some j → j.Away) → (∃ mom, runs' mom) →
      ∀ k, t.job id = some k → k.Away) : Single id t runs' := by
  have counted := pending_ended id listed ended
  have alone := single.one
  rw [if_pos own] at counted
  have before : Busy id s runs := .inl (by omega)
  have none : t.pending id = 0 := by omega
  obtain ⟨next, numbered, issued⟩ := single.known
  obtain ⟨next', numbered', le⟩ := later next numbered
  exact ⟨⟨next', numbered', fun _ => (issued before).mono le⟩, by omega, by omega, once,
    fun now => away (single.away before) (now.resolve_left (by omega))⟩

theorem undone (single : Single id s runs) (listed : d ∈ s.dispatches) (env : Env) :
    Single id (s.dispatchFailed env d) runs := by
  have taken : s.step env (.dispatchFailed d) = s.dispatchFailed env d := if_pos listed
  have ended : (s.dispatchFailed env d).books = (s.endDispatch d).books := Server.books_dispatchFailed
  have counted := pending_ended id listed ended
  rw [← taken] at ended counted ⊢
  by_cases own : d.job = id
  · rw [if_pos own] at counted
    have free := single.apart (by omega)
    exact single.of_ended listed own ended (fun _ numbered => numbered.later env trivial)
      (fun mom _ now => absurd now (free mom)) fun _ ⟨mom, now⟩ => absurd now (free mom)
  · rw [if_neg own] at counted
    exact single.of_same (fun _ numbered => numbered.later env trivial) counted fun now k held =>
      ((s.step_effect env (.dispatchFailed d)).fate id).away_ended (.inl ⟨rfl, own⟩) (single.away now) k held

/-- A dispatch that got through hands the token to the process on its node. -/
theorem done (single : Single id s runs) (listed : d ∈ s.dispatches) (session : String)
    (moved : ∀ mom, runs' mom → runs mom ∨ d.job = id ∧ mom = d.node) :
    Single id (s.dispatchDone d session) runs' := by
  have taken : s.step { now := 0 } (.dispatchDone d session) = s.dispatchDone d session := if_pos listed
  have ended : (s.dispatchDone d session).books = (s.endDispatch d).books := Server.books_dispatchDone
  have counted := pending_ended id listed ended
  have fate := fun away => ((s.step_effect { now := 0 } (.dispatchDone d session)).fate id).away_ended
    (.inr ⟨session, rfl⟩) away
  rw [← taken] at ended counted ⊢
  by_cases own : d.job = id
  · rw [if_pos own] at counted
    have free := single.apart (by omega)
    have here : ∀ mom, runs' mom → mom = d.node := fun mom now => ((moved mom now).resolve_left (free mom)).2
    exact single.of_ended listed own ended (fun _ numbered => numbered.later _ trivial)
      (fun mom mom' first second => (here mom first).trans (here mom' second).symm)
      fun away _ k held => fate away k held
  · rw [if_neg own] at counted
    refine Single.mono ?_ fun mom now => (moved mom now).resolve_right fun same => own same.1
    exact single.of_same (fun _ numbered => numbered.later _ trivial) counted
      fun now k held => fate (single.away now) k held

end Single

/-! ### The daemons -/

def Launch.Fails (launch : Launch) : Prop := launch.prepared = false ∨ launch.started = false

namespace Daemon
variable {m : Daemon} {id key : String}

theorem runs_killStaleSession (runs : (m.killStaleSession key).Runs id) : m.Runs id := by
  unfold killStaleSession at runs
  split at runs
  · exact runs
  · obtain ⟨p, member, own, alive⟩ := runs
    obtain ⟨q, listed, rfl⟩ := List.mem_map.mp member
    split at own
    · rename_i killed
      simp [killed] at alive
    · exact ⟨q, listed, own, by simpa [*] using alive⟩

theorem runs_finish (runs : (m.finish sid code).Runs id) : m.Runs id := by
  have fewer : (m.finish sid code).processes ⊆ m.processes := by
    unfold finish
    split
    · exact List.Subset.refl _
    case h_2 p _ =>
      have erased : m.processes.erase p ⊆ m.processes := List.erase_subset
      simp only
      split
      · exact erased
      · split <;> exact erased
  obtain ⟨p, member, own⟩ := runs
  exact ⟨p, fewer member, own⟩

/-- Only a `Commit` that is answered positively starts a process. -/
theorem Handles.runs (handles : m.Handles msg answer) (runs : answer.1.Runs id) :
    m.Runs id ∨ msg = .commit id ∧ answer.2 ≠ none := by
  cases handles with
  | refused | queued | noted | scripted | marked => exact .inl runs
  | reaped | written => exact .inl (runs_killStaleSession runs)
  | @started j key found =>
    obtain ⟨p, member, own, alive⟩ := runs
    rcases List.mem_cons.mp member with rfl | listed
    · exact .inr ⟨by rw [← own], by simp⟩
    · exact .inl (runs_killStaleSession ⟨p, listed, own, alive⟩)

theorem handle_fails (fails : launch.Fails) : (m.handle launch (.commit id)).2 = none := by
  simp only [handle, handleCommit]
  split
  · rfl
  · rcases fails with unprepared | unstarted
    · simp [unprepared]
    · split_ifs <;> first | rfl | simp_all

end Daemon

namespace Cluster
variable {c : Cluster} {id : String}

def runs (c : Cluster) (id mom : String) : Prop := (c.moms mom).Runs id

instance (c : Cluster) (id mom : String) : Decidable (c.runs id mom) :=
  inferInstanceAs (Decidable (Daemon.Runs _ _))

theorem runs_tell {letter : Letter} (now : (c.tell launch letter).runs id mom) :
    c.runs id mom ∨ mom = letter.mom ∧ letter.msg = .commit id ∧
      ((c.moms letter.mom).handle launch letter.msg).2 ≠ none := by
  by_cases here : mom = letter.mom
  · subst here
    simp only [runs, tell, Function.update_self] at now
    exact (((c.moms letter.mom).handle_handles launch letter.msg).runs now).imp_right fun started =>
      ⟨rfl, started⟩
  · simp only [runs, tell, Function.update_of_ne here] at now
    exact .inl now

/-- The events that do not make a busy job startable: no request puts it back, no `Commit`
that the server has given up starts it, and the reply to one that starts it arrives. -/
def LetsRun (id : String) (c : Cluster) : Event → Prop
  | .server env step => c.server.LetsRun env id (Busy id c.server (c.runs id)) step
  | .exchange _ k _ launch .replyLost => k.message = .commit id → launch.Fails
  | .deliver letter launch => letter.msg = .commit id → launch.Fails
  | _ => True

def AsksOne (id : String) (c : Cluster) : Event → Prop
  | .server env step => Single.AsksOne id c.server env step
  | _ => True

theorem runs_tell_fails {letter : Letter} (fails : letter.msg = .commit id → launch.Fails)
    (now : (c.tell launch letter).runs id mom) : c.runs id mom := by
  refine (runs_tell now).resolve_right fun ⟨_, commit, positive⟩ => ?_
  rw [commit] at positive
  exact positive (Daemon.handle_fails (fails commit))

theorem message_commit {k : Conn} (commit : k.message = .commit id) : k.stage = .commit ∧ k.job = id := by
  unfold Conn.message at commit
  split at commit
  · cases commit
  · cases commit
  case h_3 stage => exact ⟨stage, Message.commit.inj commit⟩

theorem single_exchange (single : Single id c.server (c.runs id)) {k : Conn} {d : Dispatch}
    (listed : d ∈ c.server.dispatches) (own : d.job = k.job ∧ d.node = k.node)
    (lets : outcome = .replyLost → k.message = .commit id → launch.Fails) :
    Single id (c.exchange env k d launch outcome).server ((c.exchange env k d launch outcome).runs id) := by
  cases outcome with
  | abandoned => exact single.undone listed env
  | replyLost => exact (single.undone listed env).mono fun mom now => runs_tell_fails (lets rfl) now
  | answered =>
    simp only [Cluster.exchange]
    split
    case h_1 refused =>
      refine (single.undone listed env).mono fun mom now => ?_
      exact (runs_tell now).resolve_right fun started => started.2.2 refused
    case h_2 advanced =>
      refine single.mono fun mom now => (runs_tell now).resolve_right fun started => ?_
      simp [Conn.advance, (message_commit started.2.1).1] at advanced
    case h_3 =>
      refine single.done listed _ fun mom now => (runs_tell now).imp_right fun started => ?_
      exact ⟨own.1.trans (message_commit started.2.1).2, started.1.trans own.2.symm⟩

theorem single_obituary (single : Single id c.server (c.runs id)) (env : Env) (o : Obituary) :
    Single id (c.server.step env (.request o.request)) (c.runs id) :=
  single.step trivial trivial trivial

theorem single_next (single : Single id c.server (c.runs id)) (asks : c.AsksOne id event)
    (lets : c.LetsRun id event) : Single id (c.next event).server ((c.next event).runs id) := by
  cases event with
  | server env step =>
    simp only [next]
    split_ifs with spontaneous
    · exact single.step spontaneous asks lets
    · exact single
  | connect job node =>
    simp only [next]
    split_ifs <;> exact single
  | unreachable env d =>
    simp only [next]
    split_ifs
    · simp only [Server.step]
      split_ifs with listed
      · exact single.undone listed env
      · exact single
    · exact single
  | exchange env k detached launch outcome =>
    simp only [next]
    split_ifs with possible
    · refine single_exchange single possible.2 ⟨rfl, rfl⟩ ?_
      rintro rfl
      exact lets
    · exact single
  | deliver letter launch =>
    simp only [next]
    split_ifs
    · exact single.mono fun mom now => runs_tell_fails lets now
    · exact single
  | drop letter => exact single
  | exit node sid code =>
    refine single.mono fun mom now => ?_
    simp only [runs, next] at now
    by_cases here : mom = node
    · subst here
      rw [Function.update_self] at now
      exact Daemon.runs_finish now
    · rwa [Function.update_of_ne here] at now
  | poll node job usage remote privileged delivery =>
    simp only [next]
    split
    · exact single
    case h_2 =>
      -- the processes of a job that leaves the table are not touched
      have removed : ∀ mom, (Function.update c.moms node ((c.moms node).removeJob job) mom).Runs id →
          c.runs id mom := by
        intro mom now
        by_cases here : mom = node
        · subst here
          rw [Function.update_self] at now
          exact now
        · rwa [Function.update_of_ne here] at now
      cases delivery with
      | handled env => exact (single_obituary single env _).mono removed
      | late | lost => exact single.mono removed
  | obituary env o =>
    simp only [next]
    split_ifs
    · exact single_obituary single env o
    · exact single

/-- No two daemons run the job, and none runs it while the server has it queued. -/
def AtMostOnce (id : String) (c : Cluster) : Prop :=
  (∀ mom mom', c.runs id mom → c.runs id mom' → mom = mom') ∧
    ∀ mom, c.runs id mom → ∀ j, c.server.job id = some j → j.state ≠ .queued

/-- In every run from the empty server in which a job asks for one node and its start is
neither repeated nor taken back, the job runs at most once at a time. -/
theorem runs_at_most_once (name : String) (backend : Pbs.Backend) (id : String) (c : Cluster)
    (reached : Reaches next (fun c event => c.AsksOne id event ∧ c.LetsRun id event)
      { server := Server.new name { backend } } c) : c.AtMostOnce id := by
  have single : Single id c.server (c.runs id) := by
    refine reached.invariant (I := fun c => Single id c.server (c.runs id))
      (fun c event single met => single_next single met.1 met.2) ?_
    exact .idle (.new name backend) rfl fun mom ⟨p, member, _⟩ => by cases member
  refine ⟨single.once, fun mom now j held queued => ?_⟩
  exact (single.away (.inr ⟨mom, now⟩) j held).not_ready (.inl queued)

/-- A job is submitted and started on the first of two nodes. -/
def submitted : List Event :=
  (Pbs.atOnce [.manager (.createQueue "batch" []),
    .manager (.createNode "n1" [{ name := "np", value := "4" }]),
    .manager (.createNode "n2" [{ name := "np", value := "4" }]), .queueJob "alice@host" "batch" [],
    .jobScript "0.server" "sleep 60" false, .commit "0.server"]).map fun l => .server l.1 l.2

def startsOn (node : String) : Event := .server { now := 1 } (.request (.runJob "0.server" node))

/-- The three exchanges of its dispatch; the last has the outcome. -/
def dispatched (node : String) (outcome : Outcome) : List Event :=
  .connect "0.server" node ::
    [(Stage.queueJob, Outcome.answered), (.jobScript, .answered), (.commit, outcome)].map fun l =>
      .exchange { now := 2 } ⟨"0.server", node, "sleep 60", l.1⟩ false {} l.2

def after (events : List Event) : Cluster := events.foldl next { server := Server.new "server" {} }

instance (id : String) (c : Cluster) (event : Event) : Decidable (c.AsksOne id event) := by
  unfold AsksOne Single.AsksOne
  split
  · split <;> infer_instance
  · infer_instance

theorem runs_at_most_once_answered :
    (after (submitted ++ [startsOn "n1"] ++ dispatched "n1" .answered)).runs "0.server" "n1" ∧
      (after (submitted ++ [startsOn "n1"] ++ dispatched "n1" .answered)).AtMostOnce "0.server" := by
  refine ⟨by decide +kernel, runs_at_most_once "server" .file "0.server" _ ⟨_, ?_, rfl⟩⟩
  have asks : Along next (AsksOne "0.server") { server := Server.new "server" {} }
      (submitted ++ [startsOn "n1"] ++ dispatched "n1" .answered) := by
    decide +kernel
  refine asks.and ⟨trivial, trivial, trivial, ?_, trivial, fun busy => absurd busy ?_, trivial, trivial,
    trivial, trivial, trivial, trivial⟩
  · show _ < maxInt
    decide +kernel
  · rintro (pending | ⟨mom, p, member, -⟩)
    · exact absurd pending (by decide +kernel)
    · cases member

/-- The reply to the `Commit` is lost: the server puts the job back and starts it on the
other node while it runs on the first. -/
theorem lost_reply_runs_job_twice :
    let lost := submitted ++ [startsOn "n1"] ++ dispatched "n1" .replyLost
    let twice := lost ++ [startsOn "n2"] ++ dispatched "n2" .answered
    Along next (AsksOne "0.server") { server := Server.new "server" {} } twice ∧
      ((after lost).runs "0.server" "n1" ∧
        ((after lost).server.job "0.server").map (·.state) = some .queued) ∧
      (after twice).runs "0.server" "n1" ∧ (after twice).runs "0.server" "n2" := by
  decide +kernel

end Cluster

end OpenTorque.Mom
