import OpenTorque.Server.Arrays

/-! The limit on the jobs of one user. It is tested where a job is submitted, for the user
of the request's header, against the jobs that name the user as their owner. A history
variable records who submitted which job, and the limit holds of the jobs a user submitted
as long as no request parts the owner of a job from its submitter. -/
namespace OpenTorque.Pbs
open Transition

/-- Where the owner of a job comes from after a step. -/
inductive Owned (s : Server) (env : Env) : Step → String → Job → Prop where
  | inherited (found : s.job key = some j) (same : k.owner = j.owner) : Owned s env step key k
  | submitted : Owned s env (.request (.queueJob user dest attrs)) s.jobMgr.formatJobID
      (s.submittedJob env user queue attrs)
  | task (commits : Commits s env given master step j) (member : key ∈ s.tasksOf master j)
      (same : k.owner = j.owner) : Owned s env step key k
  | modified (found : s.getJob env given = some (key, j)) :
      Owned s env (.request (.modifyJob given attrs)) key (j.applyJobAttrs key env.now attrs)

namespace Job
variable (j : Job)

theorem fillText_owner (field : JobText) (value : String) :
    (j.fillText field value).owner = j.owner := by
  rw [fillText]
  split <;> rfl

theorem entered_owner (env : Env) (id dest : String) : (j.entered env id dest).owner = j.owner := by
  simp only [entered]
  split <;> exact (fillText_owner ..).trans (fillText_owner ..)

theorem turnedAway_owner (env : Env) (id : String) : (j.turnedAway env id).owner = j.owner :=
  (fillText_owner ..).trans (fillText_owner ..)

end Job

theorem Commits.owner {s : Server} (commits : Commits s env given key step m) :
    ∃ j, s.job key = some j ∧ m.owner = j.owner := by
  cases commits with
  | commit found => exact ⟨_, Server.job_of_getJob found, rfl⟩
  | script found => exact ⟨_, Server.job_of_getJob found, rfl⟩

theorem Fate.owned {s : Server} (fate : Fate s env step key (some k)) : Owned s env step key k := by
  generalize there : some k = after at fate
  cases fate with
  | kept => exact .inherited there.symm rfl
  | deleted | purged | discarded => cases there
  | submitted =>
    cases there
    exact .submitted
  | scripted found | held found | released found | cleared found | moved found | rerun found
  | commented found | ended found =>
    cases there
    exact .inherited (Server.job_of_getJob found) rfl
  | started found ready same =>
    cases there
    refine .inherited (Server.job_of_getJob found) ?_
    rcases same with rfl | ⟨_, _, rfl⟩ <;> rfl
  | ordered found | dispatched found | undone _ found | unreachable found | promoted found
  | reconciled found =>
    cases there
    exact .inherited found rfl
  | entered commits =>
    cases there
    obtain ⟨j, found, same⟩ := commits.owner
    exact .inherited found ((Job.entered_owner ..).trans same)
  | turnedAway commits =>
    cases there
    obtain ⟨j, found, same⟩ := commits.owner
    exact .inherited found ((Job.turnedAway_owner ..).trans same)
  | task commits spec member named =>
    cases there
    exact .task commits (named ▸ Server.mem_tasksOf spec member) (Job.entered_owner ..)
  | modified found =>
    cases there
    exact .modified found

theorem Server.submittedJob_owner {s : Server} {env : Env} {user queue : String} {attrs : List Attr}
    (keeps : ∀ a ∈ attrs, a.name = "Job_Owner" → a.value = user) :
    (s.submittedJob env user queue attrs).owner = user := by
  have applied : (((Job.newJob queue s.cfg.serverName env.now).setOwner user).applyJobAttrs
      s.jobMgr.formatJobID env.now attrs).owner = user := Job.applyJobAttrs_owner _ _ keeps
  rw [submittedJob]
  split
  · rfl
  · exact applied

/-- A submission is turned down or becomes a job under the next id. -/
theorem Server.handleQueueJob_cases (s : Server) (env : Env) (user dest : String) (attrs : List Attr) :
    (∃ (t : Server) (code : Nat), t.job = s.job ∧ s.handleQueueJob env user dest attrs = t.reject code) ∨
    ∃ queue, (s.enforceSubmitLimits user).isOk = true ∧ s.handleQueueJob env user dest attrs =
      ((s.onJobs (·.advance)).onJobs (·.addJob s.jobMgr.formatJobID
        (s.submittedJob env user queue attrs))).answer
          (.jobID replyChoiceQueue s.jobMgr.formatJobID) := by
  rw [handleQueueJob]
  generalize (if dest = "" then _ else _ : Option String) = target
  cases target with
  | none => exact .inl ⟨s, _, rfl, rfl⟩
  | some queue =>
    simp only
    split
    · exact .inl ⟨s, _, rfl, rfl⟩
    split
    · exact .inl ⟨s.onJobs (·.advance), _, rfl, rfl⟩
    split
    · exact .inl ⟨s.onJobs (·.advance), _, rfl, rfl⟩
    case isFalse limits _ =>
      rw [Bool.not_eq_true', Bool.not_eq_false] at limits
      exact .inr ⟨queue, limits, rfl⟩

/-- What a commit does to the owners of jobs. A commit with tasks either takes them all back
or consumes the master. -/
structure CommitOwners (s : Server) (key : String) (j : Job) (t : Server) : Prop where
  other : ∀ x ∉ s.tasksOf key j, ∀ k, t.job x = some k → ∃ m, s.job x = some m ∧ k.owner = m.owner
  task : ∀ x ∈ s.tasksOf key j, ∀ k, t.job x = some k → k.owner = j.owner
  consumed : s.tasksOf key j ≠ [] → t.job key = none ∨ ∀ x ∈ s.tasksOf key j, t.job x = none

namespace Server
variable {s t u : Server} {env : Env} {given key user owner x : String} {j k : Job}

theorem commitOwners_single (found : s.job key = some j) (none : s.tasksOf key j = []) :
    CommitOwners s key j (s.commit env given key j reply).server := by
  refine ⟨fun x _ k after => ?_, by simp [none], fun some => absurd none some⟩
  have fate : CommitFate s env given key j x ((s.commit env given key j reply).server.job x) :=
    commit_fate found x
  rw [after] at fate
  generalize there : some k = result at fate
  cases fate with
  | kept => exact ⟨k, there.symm, rfl⟩
  | discarded => cases there
  | entered =>
    cases there
    exact ⟨j, found, Job.entered_owner ..⟩
  | turnedAway =>
    cases there
    exact ⟨j, found, Job.turnedAway_owner ..⟩
  | task spec member named =>
    have listed : arrayTaskID key s.cfg.serverName _ ∈ s.tasksOf key j := mem_tasksOf spec member
    simp [none] at listed

theorem commitOwners_array (some : s.tasksOf key j ≠ []) :
    CommitOwners s key j (s.commit env given key j reply).server := by
  cases spec : parseArraySpec j.jobArrayReq with
  | invalid | endless => simp [tasksOf, spec] at some
  | indices values =>
    have listed : s.tasksOf key j = values.map (arrayTaskID key s.cfg.serverName) := by
      rw [tasksOf, spec]
    have processed : s.processJobArray env key j j.owner = _ :=
      processJobArray_indices spec (by simpa [listed] using some)
    generalize done : commitTasks env j.owner _ _ = outcome at processed
    obtain ⟨u, reason | ⟨⟩⟩ := outcome
    · have rejected : (s.processJobArray env key j j.owner).2 = .rejected reason := by rw [processed]
      have job : ∀ x, (s.commit env given key j reply).server.job x =
          if x = given then none else if x ∈ s.tasksOf key j then none else s.job x := by
        intro x
        rw [commit_rejected rejected, job_discard, Function.update_apply, job_rejected rejected]
      refine ⟨fun x outside k after => ?_, fun x task k after => ?_, fun _ => .inr fun x task => ?_⟩
      · rw [job, if_neg outside] at after
        split at after
        · cases after
        · exact ⟨k, after, rfl⟩
      · simp [job, task] at after
      · simp [job, task]
    · have nodup : values.Nodup := readArrayItems_nodup _ _ spec
      have committed : (s.commit env given key j reply).server = u.discard key := by
        rw [commit, processed]
        rfl
      obtain ⟨frame, entered⟩ := commitTasks_entered (nodup.map (arrayTaskID_injective key _))
        (fun task => addTasks_present values) done
      refine ⟨fun x outside k after => ?_, fun x task k after => ?_, fun _ => .inl ?_⟩
      · rw [committed, job_discard, Function.update_apply] at after
        split at after
        · cases after
        · rw [listed] at outside
          rw [(frame x outside).1, addTasks_job values outside] at after
          exact ⟨k, after, rfl⟩
      · rw [listed] at task
        obtain ⟨i, member, rfl⟩ := List.mem_map.mp task
        obtain ⟨dest, -, job, -⟩ := entered _ task _ (addTasks_clone values nodup member)
        rw [committed, job_discard, Function.update_of_ne (arrayTaskID_ne key _ i), job] at after
        cases after
        exact Job.entered_owner ..
      · rw [committed, job_discard, Function.update_self]

end Server

/-- Storing the script that comes with a commit leaves tasks and owners alone. -/
theorem Committing.before {request : Request} (committing : Committing s env request u given key j) :
    u.tasksOf key j = s.tasksOf key j ∧
      ∀ x m, u.job x = some m → ∃ m', s.job x = some m' ∧ m.owner = m'.owner := by
  cases committing with
  | commit named => exact ⟨rfl, fun x m found => ⟨m, found, rfl⟩⟩
  | script named =>
    refine ⟨rfl, fun x m found => ?_⟩
    rw [Server.job_onStore, Server.job_putJob] at found
    by_cases same : x = key
    · subst same
      rw [Function.update_self] at found
      cases found
      exact ⟨_, Server.job_of_getJob named, rfl⟩
    · rw [Function.update_of_ne same] at found
      exact ⟨m, found, rfl⟩

/-- A commit has the effect on owners in the state in which its request came. -/
theorem Committing.owners {request : Request} (committing : Committing s env request u given key j) :
    CommitOwners s key j (s.handle env request).server ∧ ∃ m, s.job key = some m ∧ m.owner = j.owner := by
  obtain ⟨reply, handled⟩ := committing.handled
  obtain ⟨tasks, before⟩ := committing.before
  obtain ⟨m, found, same⟩ := before key j committing.job
  have owners : CommitOwners u key j (s.handle env request).server := by
    rw [handled]
    by_cases none : u.tasksOf key j = []
    · exact Server.commitOwners_single committing.job none
    · exact Server.commitOwners_array none
  obtain ⟨other, task, consumed⟩ := owners
  rw [tasks] at other task consumed
  refine ⟨⟨fun x outside k after => ?_, task, consumed⟩, m, found, same.symm⟩
  obtain ⟨m, held, first⟩ := other x outside k after
  obtain ⟨m', held', second⟩ := before x m held
  exact ⟨m', held', first.trans second⟩

namespace Server
variable {s t u : Server} {env : Env} {given key user owner x : String} {j k : Job}

def noteTasks (s : Server) (env : Env) (given : String) (by_ : String → Option String) (x : String) :
    Option String :=
  match s.getJob env given with
  | some (key, j) => if x ∈ s.tasksOf key j then by_ key else by_ x
  | none => by_ x

/-- The user whose request brought a job in: that of the submission, and for a task of an
array that of its master. -/
def noteSubmitter (s : Server) (l : Env × Step) (by_ : String → Option String) (x : String) :
    Option String :=
  match l.2 with
  | .request (.queueJob user _ _) => if s.submits l x then some user else by_ x
  | .request (.commit given) | .request (.jobScript given _ true) => s.noteTasks l.1 given by_ x
  | _ => by_ x

theorem noteSubmitter_some {l : Env × Step} {by_ : String → Option String}
    (found : s.getJob env given = some (key, j))
    (note : ∀ x, s.noteSubmitter l by_ x = s.noteTasks env given by_ x) :
    s.noteSubmitter l by_ = fun x => if x ∈ s.tasksOf key j then by_ key else by_ x := by
  funext x
  rw [note, noteTasks, found]

/-- The jobs of the manager that requests of a user brought in. -/
def submittedBy (s : Server) (by_ : String → Option String) (user : String) : List String :=
  s.jobMgr.jobs.keys.filter (by_ · = some user)

def submitLimit (s : Server) : Int := s.cfg.number "max_user_queuable"

def FixesSubmitLimit (s : Server) (l : Env × Step) : Prop := (s.next l).submitLimit = s.submitLimit

/-- No request gives a job an owner other than its submitter, and an array is committed only
when the limit leaves room for all of its tasks in the place of the master. -/
def KeepsSubmitters (s : Server) (l : Env × Step) : Prop :=
  match l.2 with
  | .request (.queueJob user _ attrs) => ∀ a ∈ attrs, a.name = "Job_Owner" → a.value = user
  | .request (.modifyJob given attrs) => ∀ found ∈ s.getJob l.1 given,
      ∀ a ∈ attrs, a.name = "Job_Owner" → a.value = found.2.owner
  | .request (.commit given) | .request (.jobScript given _ true) =>
    ∀ found ∈ s.getJob l.1 given, s.tasksOf found.1 found.2 ≠ [] →
      (s.jobMgr.countJobsByOwner found.2.owner : Int) + (s.tasksOf found.1 found.2).length ≤
        s.submitLimit + 1
  | _ => True

instance (s : Server) (l : Env × Step) : Decidable (s.FixesSubmitLimit l) :=
  inferInstanceAs (Decidable (_ = _))

instance (s : Server) : (l : Env × Step) → Decidable (s.KeepsSubmitters l) := by
  rintro ⟨env, step⟩
  induction step using Step.casesOn with
  | request r =>
    induction r using Request.casesOn with
    | jobScript _ _ finish =>
      induction finish using Bool.casesOn <;> unfold KeepsSubmitters <;> infer_instance
    | _ => unfold KeepsSubmitters; infer_instance
  | _ => unfold KeepsSubmitters; infer_instance

/-- The submitter of every job is its owner, and no owner has more jobs than the limit. -/
structure WithinSubmitLimit (limit : Int) (s : Server) (by_ : String → Option String) : Prop where
  fixed : s.submitLimit = limit
  submitter : ∀ id j, s.job id = some j → by_ id = some j.owner
  bounded : ∀ owner, (s.jobMgr.countJobsByOwner owner : Int) ≤ limit

theorem enforceSubmitLimits_below (tested : (s.enforceSubmitLimits user).isOk = true) :
    s.submitLimit ≤ 0 ∨ (s.jobMgr.countJobsByOwner user : Int) < s.submitLimit := by
  simp only [enforceSubmitLimits, isOk_require_bind, require_isOk, Bool.and_eq_true, Bool.or_eq_true,
    decide_eq_true_eq] at tested
  exact tested.2

namespace WithinSubmitLimit
variable {limit : Int} {by_ : String → Option String}

section
variable (within : WithinSubmitLimit limit s by_)
include within

theorem submittedBy_le (user : String) :
    ((s.submittedBy by_ user).length : Int) ≤ limit := by
  have fewer : s.submittedBy by_ user ⊆ s.jobMgr.jobs.chosen fun j => j.owner = user := by
    intro id member
    obtain ⟨present, mine⟩ := List.mem_filter.mp member
    obtain ⟨j, found⟩ := Assoc.exists_lookup present
    have owner := within.submitter id j found
    rw [of_decide_eq_true mine] at owner
    cases owner
    exact Assoc.mem_chosen.mpr ⟨j, found, by simp⟩
  have nodup : (s.submittedBy by_ user).Nodup := s.jobMgr.jobs.keys_nodup.filter _
  have counted : s.jobMgr.countJobsByOwner user = (s.jobMgr.jobs.chosen fun j => j.owner = user).length :=
    Assoc.length_filter_entries s.jobMgr.jobs fun j => j.owner = user
  have bounded := within.bounded user
  have shorter := (List.subperm_of_subset nodup fewer).length_le
  omega

theorem inherited (fixed : t.submitLimit = s.submitLimit)
    (kept : ∀ x k, t.job x = some k → ∃ j, s.job x = some j ∧ k.owner = j.owner) :
    WithinSubmitLimit limit t by_ where
  fixed := fixed.trans within.fixed
  submitter x k after := by
    obtain ⟨j, found, same⟩ := kept x k after
    rw [same]
    exact within.submitter x j found
  bounded owner := by
    have fewer : t.jobMgr.countJobsByOwner owner ≤ s.jobMgr.countJobsByOwner owner := by
      refine JobManager.count_le fun x k after mine => ?_
      obtain ⟨j, found, same⟩ := kept x k after
      exact ⟨j, found, by simpa [← same] using mine⟩
    have before := within.bounded owner
    omega

/-- A submission that is let in. -/
theorem submitted (positive : 0 < limit)
    (fixed : t.submitLimit = s.submitLimit) (job : t.job = Function.update s.job x (some j))
    (owner : j.owner = user) (tested : (s.enforceSubmitLimits user).isOk = true) :
    WithinSubmitLimit limit t (Function.update by_ x (some user)) where
  fixed := fixed.trans within.fixed
  submitter y k after := by
    rw [job] at after
    by_cases new : y = x
    · subst new
      rw [Function.update_self] at after ⊢
      cases after
      rw [owner]
    · rw [Function.update_of_ne new] at after ⊢
      exact within.submitter y k after
  bounded name := by
    have before := within.bounded name
    by_cases mine : name = user
    · subst mine
      have more : t.jobMgr.countJobsByOwner name ≤ s.jobMgr.countJobsByOwner name + 1 := by
        refine JobManager.count_le_succ x fun y k other after holds => ?_
        have there : t.job y = some k := after
        rw [job, Function.update_of_ne other] at there
        exact ⟨k, there, holds⟩
      have below : (s.jobMgr.countJobsByOwner name : Int) < limit := by
        have passed := within.fixed ▸ enforceSubmitLimits_below tested
        omega
      omega
    · have fewer : t.jobMgr.countJobsByOwner name ≤ s.jobMgr.countJobsByOwner name := by
        refine JobManager.count_le fun y k after holds => ?_
        have there : t.job y = some k := after
        rw [job] at there
        by_cases new : y = x
        · subst new
          rw [Function.update_self] at there
          cases there
          rw [owner] at holds
          exact absurd (of_decide_eq_true holds).symm mine
        · rw [Function.update_of_ne new] at there
          exact ⟨k, there, holds⟩
      omega

/-- A commit that leaves room for its tasks. -/
theorem committed (fixed : t.submitLimit = s.submitLimit)
    (owners : CommitOwners s key j t) (found : s.job key = some m) (same : m.owner = j.owner)
    (room : s.tasksOf key j ≠ [] → (s.jobMgr.countJobsByOwner j.owner : Int) +
      (s.tasksOf key j).length ≤ limit + 1) :
    WithinSubmitLimit limit t fun x => if x ∈ s.tasksOf key j then by_ key else by_ x where
  fixed := fixed.trans within.fixed
  submitter x k after := by
    split
    case isTrue task => rw [owners.task x task k after, within.submitter key m found, same]
    case isFalse outside =>
      obtain ⟨m', before, kept⟩ := owners.other x outside k after
      rw [within.submitter x m' before, kept]
  bounded name := by
    have before := within.bounded name
    -- Without new tasks the jobs of an owner were there before.
    have fewer : (∀ x ∈ s.tasksOf key j, t.job x = none ∨ name ≠ j.owner) →
        t.jobMgr.countJobsByOwner name ≤ s.jobMgr.countJobsByOwner name := by
      intro others
      refine JobManager.count_le fun x k after holds => ?_
      have mine : k.owner = name := of_decide_eq_true holds
      have outside : x ∉ s.tasksOf key j := by
        intro task
        rcases others x task with gone | other
        · exact absurd (gone.symm.trans after) nofun
        · exact other (mine.symm.trans (owners.task x task k after))
      obtain ⟨m', found, kept⟩ := owners.other x outside k after
      exact ⟨m', found, by simp [← kept, mine]⟩
    by_cases mine : name = j.owner
    case neg =>
      have := fewer fun _ _ => .inr mine
      omega
    subst mine
    by_cases none : s.tasksOf key j = []
    case pos =>
      have := fewer (by simp [none])
      omega
    rcases owners.consumed none with gone | back
    · have more : [key].length + t.jobMgr.countJobsByOwner j.owner ≤
          s.jobMgr.countJobsByOwner j.owner + (s.tasksOf key j).length := by
        refine JobManager.count_le_add [key] (s.tasksOf key j) (by simp) ?_ fun x k outside after holds => ?_
        · simp only [List.mem_singleton, forall_eq]
          exact ⟨gone, m, found, by simp [same]⟩
        · obtain ⟨m', before, kept⟩ := owners.other x outside k after
          exact ⟨m', before, by simpa [← kept] using holds⟩
      have := room none
      simp only [List.length_singleton] at more
      omega
    · have := fewer fun x task => .inl (back x task)
      omega

end

theorem queueJob {dest : String} {attrs : List Attr} (within : WithinSubmitLimit limit s by_)
    (positive : 0 < limit) (fixed : s.FixesSubmitLimit (env, .request (.queueJob user dest attrs)))
    (keeps : ∀ a ∈ attrs, a.name = "Job_Owner" → a.value = user) :
    WithinSubmitLimit limit (s.next (env, .request (.queueJob user dest attrs)))
      (s.noteSubmitter (env, .request (.queueJob user dest attrs)) by_) := by
  rcases s.handleQueueJob_cases env user dest attrs with
    ⟨t, code, job, handled⟩ | ⟨queue, tested, handled⟩
  · have note : s.noteSubmitter (env, .request (.queueJob user dest attrs)) by_ = by_ := by
      funext x
      simp [noteSubmitter, submits, handle, handled, reject]
    rw [note]
    refine within.inherited fixed fun x k after => ⟨k, ?_, rfl⟩
    simpa [next, Server.step, handle, handled, reject, job] using after
  · have after : (s.next (env, .request (.queueJob user dest attrs))).job = Function.update s.job
        s.jobMgr.formatJobID (some (s.submittedJob env user queue attrs)) := by
      rw [Server.next, Server.step, handle, handled]
      exact job_addJob
    have note : s.noteSubmitter (env, .request (.queueJob user dest attrs)) by_ =
        Function.update by_ s.jobMgr.formatJobID (some user) := by
      funext x
      simp only [noteSubmitter, submits, handle, handled, answer, Function.update_apply]
      simp [eq_comm]
    rw [note]
    exact within.submitted positive fixed after (submittedJob_owner keeps) tested

theorem unknown {request : Request} (within : WithinSubmitLimit limit s by_) (same : (s.handle env request).server = s)
    (missing : s.getJob env given = none)
    (note : ∀ x, s.noteSubmitter (env, .request request) by_ x = s.noteTasks env given by_ x) :
    WithinSubmitLimit limit (s.next (env, .request request))
      (s.noteSubmitter (env, .request request) by_) := by
  have kept : s.noteSubmitter (env, .request request) by_ = by_ := by
    funext x
    rw [note, noteTasks, missing]
  have still : s.next (env, .request request) = s := same
  rwa [kept, still]

theorem commit {request : Request} (within : WithinSubmitLimit limit s by_)
    (fixed : s.FixesSubmitLimit (env, .request request))
    (committing : Committing s env request u given key j)
    (room : s.tasksOf key j ≠ [] → (s.jobMgr.countJobsByOwner j.owner : Int) +
      (s.tasksOf key j).length ≤ s.submitLimit + 1) :
    WithinSubmitLimit limit (s.next (env, .request request))
      fun x => if x ∈ s.tasksOf key j then by_ key else by_ x := by
  obtain ⟨owners, m, found, same⟩ := committing.owners
  exact within.committed fixed owners found same (within.fixed ▸ room)

/-- A step that neither submits nor commits leaves the owners as they are. -/
theorem other {step : Step} (within : WithinSubmitLimit limit s by_)
    (fixed : s.FixesSubmitLimit (env, step)) (keeps : s.KeepsSubmitters (env, step))
    (commit : ¬ Commit step) (submit : ∀ user dest attrs, step ≠ .request (.queueJob user dest attrs)) :
    WithinSubmitLimit limit (s.next (env, step)) by_ := by
  refine within.inherited fixed fun x k after => ?_
  have fate := (s.step_effect env step).fate x
  rw [show (s.step env step).job x = some k from after] at fate
  cases fate.owned with
  | inherited found same => exact ⟨_, found, same⟩
  | submitted => exact absurd rfl (submit _ _ _)
  | task commits => exact absurd (.of_commits commits) commit
  | modified found =>
    exact ⟨_, job_of_getJob found, Job.applyJobAttrs_owner _ _ (keeps _ found)⟩

theorem next {l : Env × Step} (within : WithinSubmitLimit limit s by_) (positive : 0 < limit)
    (fixed : s.FixesSubmitLimit l) (keeps : s.KeepsSubmitters l) :
    WithinSubmitLimit limit (s.next l) (s.noteSubmitter l by_) := by
  obtain ⟨env, step⟩ := l
  by_cases commit : Commit step
  · obtain ⟨given, rfl | ⟨data, rfl⟩⟩ := commit
    · cases found : s.getJob env given with
      | none =>
        refine within.unknown ?_ found fun x => rfl
        simp [handle, handleCommit, found, reject]
      | some entry =>
        rw [noteSubmitter_some found fun x => rfl]
        exact within.commit fixed (.commit found) (keeps entry found)
    · cases found : s.getJob env given with
      | none =>
        refine within.unknown ?_ found fun x => rfl
        simp [handle, handleJobScript, found, reject]
      | some entry =>
        rw [noteSubmitter_some found fun x => rfl]
        have committing : Committing s env (.jobScript given data true) _ given entry.1
          (entry.2.setScript data) := .script found
        have after := within.commit fixed committing (keeps entry found)
        exact after
  by_cases queueJob : ∃ user dest attrs, step = .request (.queueJob user dest attrs)
  · obtain ⟨user, dest, attrs, rfl⟩ := queueJob
    exact within.queueJob positive fixed keeps
  · have note : s.noteSubmitter (env, step) by_ = by_ := by
      funext x
      rw [noteSubmitter]
      split
      case h_1 is => exact absurd ⟨_, _, _, is⟩ queueJob
      case h_2 is => exact absurd ⟨_, .inl is⟩ commit
      case h_3 is => exact absurd ⟨_, .inr ⟨_, is⟩⟩ commit
      case h_4 => rfl
    rw [note]
    exact within.other fixed keeps commit fun user dest attrs is => queueJob ⟨user, dest, attrs, is⟩

end WithinSubmitLimit

/-- From a server without jobs, over any run that leaves the limit alone, keeps owners to
submitters and commits arrays only where there is room, no user has more jobs than the limit. -/
theorem submit_limit_kept (s : Server) (empty : s.jobMgr.jobs = ∅) (limit : Int) (positive : 0 < limit)
    (set : s.submitLimit = limit) (ls : List (Env × Step))
    (keeps : Along (watched Server.next noteSubmitter)
      (fun w l => w.1.FixesSubmitLimit l ∧ w.1.KeepsSubmitters l) (s, fun _ => none) ls) :
    let w := ls.foldl (watched Server.next noteSubmitter) (s, fun _ => none)
    ∀ user, ((w.1.submittedBy w.2 user).length : Int) ≤ limit := by
  have initial : WithinSubmitLimit limit s fun _ => none := by
    refine ⟨set, fun id j found => ?_, fun owner => ?_⟩
    · rw [job, empty] at found
      cases found
    · simpa [JobManager.countJobsByOwner, JobManager.count, empty] using positive.le
  have within := keeps.invariant (I := fun w => WithinSubmitLimit limit w.1 w.2)
    (fun w l before met => before.next positive met.1 met.2) initial
  exact fun user => within.submittedBy_le user

/-- A server without jobs where a user may have so many. -/
def perUser (limit : Int) : Server :=
  { Server.new "server" {} with
    cfg := (Config.newConfig "server").setNumber "max_user_queuable" limit }

theorem submit_limit_kept_two_users :
    let run := atOnce [.manager (.createQueue "batch" []), .queueJob "alice@host" "batch" [],
      .commit "0.server", .queueJob "alice@host" "batch" [], .queueJob "bob@host" "batch" []]
    let w := run.foldl (watched Server.next noteSubmitter) (perUser 1, fun _ => none)
    w.1.submittedBy w.2 "alice@host" = ["0.server"] ∧
      ∀ user, ((w.1.submittedBy w.2 user).length : Int) ≤ 1 :=
  ⟨by decide +kernel, submit_limit_kept (perUser 1) rfl 1 (by decide) (by decide) _ (by decide +kernel)⟩

/-- An array of two tasks passes a limit of one job; so does a second job that names another
owner. -/
theorem array_passes_submit_limit :
    let run := atOnce [.manager (.createQueue "batch" []),
      .queueJob "alice@host" "batch" [{ name := "job_array_request", value := "1-2" }],
      .commit "0.server",
      .queueJob "bob@host" "batch" [{ name := "Job_Owner", value := "carol@host" }],
      .queueJob "bob@host" "batch" []]
    let w := run.foldl (watched Server.next noteSubmitter) (perUser 1, fun _ => none)
    Along (watched Server.next noteSubmitter) (fun w l => w.1.FixesSubmitLimit l)
        (perUser 1, fun _ => none) run ∧
      w.1.submittedBy w.2 "alice@host" = ["0[2].server", "0[1].server"] ∧
      w.1.submittedBy w.2 "bob@host" = ["2.server", "1.server"] ∧
      ¬ ∀ user, ((w.1.submittedBy w.2 user).length : Int) ≤ 1 := by
  intro run w
  have facts : Along (watched Server.next noteSubmitter) (fun w l => w.1.FixesSubmitLimit l)
        (perUser 1, fun _ => none) run ∧
      w.1.submittedBy w.2 "alice@host" = ["0[2].server", "0[1].server"] ∧
      w.1.submittedBy w.2 "bob@host" = ["2.server", "1.server"] := by decide +kernel
  obtain ⟨fixed, alice, bob⟩ := facts
  refine ⟨fixed, alice, bob, fun bounded => ?_⟩
  simpa [alice] using bounded "alice@host"

end Server

end OpenTorque.Pbs
