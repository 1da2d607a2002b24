import OpenTorque.Server.Policy
import OpenTorque.Server.Lifecycle

/-! The run limits of the server. They are tested where a job is started, against the
jobs that run at that moment; the owner and the group of a job that runs can be changed
afterwards, and only then can a limit be passed. -/
namespace OpenTorque.Pbs
open Transition

namespace JobManager
variable {m m' : JobManager} {wanted : Job → Bool}

theorem count_le_add (gone fresh : List String) (distinct : gone.Nodup)
    (taken : ∀ id ∈ gone, m'.jobs.lookup id = none ∧ ∃ j, m.jobs.lookup id = some j ∧ wanted j = true)
    (kept : ∀ id k, id ∉ fresh → m'.jobs.lookup id = some k → wanted k = true →
      ∃ j, m.jobs.lookup id = some j ∧ wanted j = true) :
    gone.length + m'.count wanted ≤ m.count wanted + fresh.length := by
  simp only [count, Assoc.length_filter_entries]
  have apart : (gone ++ m'.jobs.chosen wanted).Nodup := by
    refine distinct.append (Assoc.nodup_chosen _ _) fun id first second => ?_
    obtain ⟨k, found, -⟩ := Assoc.mem_chosen.mp second
    rw [(taken id first).1] at found
    cases found
  have fewer : gone ++ m'.jobs.chosen wanted ⊆ m.jobs.chosen wanted ++ fresh := by
    intro id member
    rw [List.mem_append]
    rcases List.mem_append.mp member with first | second
    · exact .inl (Assoc.mem_chosen.mpr (taken id first).2)
    · by_cases new : id ∈ fresh
      · exact .inr new
      · obtain ⟨k, found, holds⟩ := Assoc.mem_chosen.mp second
        exact .inl (Assoc.mem_chosen.mpr (kept id k new found holds))
  simpa using (List.subperm_of_subset apart fewer).length_le

theorem count_le (kept : ∀ id k, m'.jobs.lookup id = some k → wanted k = true →
    ∃ j, m.jobs.lookup id = some j ∧ wanted j = true) : m'.count wanted ≤ m.count wanted := by
  simpa using count_le_add [] [] List.nodup_nil (by simp) fun id k _ => kept id k

theorem count_le_succ (x : String) (kept : ∀ id k, id ≠ x → m'.jobs.lookup id = some k →
    wanted k = true → ∃ j, m.jobs.lookup id = some j ∧ wanted j = true) :
    m'.count wanted ≤ m.count wanted + 1 := by
  simpa using count_le_add [] [x] List.nodup_nil (by simp) fun id k other =>
    kept id k (by simpa using other)

end JobManager

namespace Job
variable {j : Job} {now : Time} {attrs : List Attr}

/-- What the limits go by. -/
def identity (j : Job) : String × String × String := (j.owner, j.text .egroup, j.queue)

theorem entered_not_running (j : Job) (env : Env) (id dest : String) :
    (j.entered env id dest).state ≠ .running := by
  have state : (j.entered env id dest).state = j.committedState env.now :=
    congrArg Prod.fst (j.entered_standing env id dest)
  exact state ▸ j.committedState_ne_running env.now

end Job

/-- How a job comes to be `Running` after a step. -/
inductive Ran (s : Server) (env : Env) : Step → String → Job → Prop where
  | still (found : s.job key = some j) (running : j.state = .running)
      (same : k.identity = j.identity) : Ran s env step key k
  | modified (found : s.getJob env given = some (key, j)) (running : j.state = .running) :
      Ran s env (.request (.modifyJob given attrs)) key (j.applyJobAttrs key env.now attrs)
  | started (found : s.getJob env given = some (key, j))
      (ready : j.state = .queued ∨ j.state = .provisioning) (allowed : s.enforceRunLimits j = true)
      (same : k.identity = j.identity) : Ran s env (.request (.runJob given dest)) key k

namespace Server
variable {s : Server} {env : Env} {key given dest : String} {j k : Job} {step : Step}

theorem submittedJob_not_running (s : Server) (env : Env) (user queue : String) (attrs : List Attr) :
    (s.submittedJob env user queue attrs).state ≠ .running := by
  intro running
  have applied : (((Job.newJob queue s.cfg.serverName env.now).setOwner user).applyJobAttrs
      s.jobMgr.formatJobID env.now attrs).state = .running := by
    simp only [submittedJob] at running
    split at running <;> exact running
  cases Job.running_of_applyJobAttrs applied

theorem handleMoveJob_running (found : s.getJob env given = some (key, j))
    (running : j.state = .running) : (s.handleMoveJob env given dest).server = s := by
  simp only [handleMoveJob, found]
  split
  · rfl
  · rw [if_pos (by simp [running])]
    rfl

theorem handleRunJob_barred (found : s.getJob env given = some (key, j))
    (barred : s.enforceRunLimits j = false) : (s.handleRunJob env given dest).server = s := by
  unfold handleRunJob
  split
  · rfl
  · simp only [found, barred]
    split <;> rfl

theorem ran (after : (s.step env step).job key = some k) (running : k.state = .running) :
    Ran s env step key k := by
  have fate := (s.step_effect env step).fate key
  rw [after] at fate
  generalize kept : some k = result at fate
  cases fate with
  | kept => exact .still kept.symm running rfl
  | deleted | purged | discarded => cases kept
  | submitted =>
    cases kept
    exact (s.submittedJob_not_running _ _ _ _ running).elim
  | entered =>
    cases kept
    exact (Job.entered_not_running _ _ _ _ running).elim
  | task =>
    cases kept
    exact (Job.entered_not_running _ _ _ _ running).elim
  | turnedAway =>
    cases kept
    cases (show JobState.queued = .running from running)
  | held | released | rerun | ended | undone | unreachable | promoted | reconciled =>
    cases kept
    cases running
  | scripted found =>
    cases kept
    exact .still (job_of_getJob found) running rfl
  | cleared found =>
    cases kept
    exact .still (job_of_getJob found) running rfl
  | commented found =>
    cases kept
    exact .still (job_of_getJob found) running rfl
  | ordered found =>
    cases kept
    exact .still found running rfl
  | dispatched found =>
    cases kept
    exact .still found running rfl
  | modified found =>
    cases kept
    exact .modified found (Job.running_of_applyJobAttrs running)
  | moved found =>
    cases kept
    rename_i given j dest queue
    have idle : s.step env (.request (.moveJob given dest)) = s :=
      handleMoveJob_running found running
    rw [idle] at after
    exact .still after running rfl
  | @started given _ j _ _ _ _ found ready same =>
    rename_i k dest hosts port
    cases kept
    cases allowed : s.enforceRunLimits j with
    | true =>
      refine .started found ready allowed ?_
      rcases same with rfl | ⟨_, _, rfl⟩ <;> rfl
    | false =>
      have idle : s.step env (.request (.runJob given dest)) = s :=
        handleRunJob_barred found allowed
      rw [idle, job_of_getJob found] at after
      cases after
      simp at ready

end Server

namespace Job
variable {j : Job} {now : Time} {attrs : List Attr}

theorem applyAttr_identity (now : Time) (j : Job) (a : Attr) :
    ((a.name = "Job_Owner" → a.value = j.owner) → (applyAttr now j a).owner = j.owner) ∧
      ((a.name = "egroup" → a.value = j.text .egroup) →
        (applyAttr now j a).text .egroup = j.text .egroup) ∧
      ((a.name = "queue" → a.value = j.queue) → (applyAttr now j a).queue = j.queue) := by
  rw [applyAttr]
  split
  case h_1 field found =>
    refine ⟨fun _ => rfl, fun keeps => ?_, fun _ => rfl⟩
    have named : field.attr = a.name := by simpa using List.find?_some found
    by_cases group : field = .egroup
    · subst group
      refine Eq.trans ?_ (keeps named.symm)
      exact Function.update_self JobText.egroup a.value j.text
    · exact Function.update_of_ne (Ne.symm group) ..
  case h_2 =>
    rw [applySpecial]
    split
    case h_1 named => exact ⟨fun keeps => keeps named, fun _ => rfl, fun _ => rfl⟩
    case h_2 named => exact ⟨fun _ => rfl, fun _ => rfl, fun keeps => keeps named⟩
    case h_4 => rw [setHoldTypes]; split <;> exact ⟨fun _ => rfl, fun _ => rfl, fun _ => rfl⟩
    case h_5 =>
      rw [setExecutionTime]
      split
      · exact ⟨fun _ => rfl, fun _ => rfl, fun _ => rfl⟩
      · dsimp only
        split <;> exact ⟨fun _ => rfl, fun _ => rfl, fun _ => rfl⟩
    case h_12 => split <;> exact ⟨fun _ => rfl, fun _ => rfl, fun _ => rfl⟩
    case h_13 => split <;> exact ⟨fun _ => rfl, fun _ => rfl, fun _ => rfl⟩
    all_goals exact ⟨fun _ => rfl, fun _ => rfl, fun _ => rfl⟩

theorem deriveDefaults_identity (j : Job) (id : String) : (j.deriveDefaults id).identity = j.identity := by
  have filled : ∀ (k : Job) field value, field ≠ .egroup →
      (k.fillText field value).identity = k.identity := by
    intro k field value other
    rw [fillText]
    split
    · simp only [identity, setText, Function.update_of_ne other.symm]
    · rfl
  rw [deriveDefaults, filled _ _ _ (by decide), filled _ _ _ (by decide)]

theorem applyJobAttrs_field {V : Type} (field : Job → V) (now : Time) (id : String)
    (derived : ∀ k : Job, field (k.deriveDefaults id) = field k)
    (applied : ∀ a ∈ attrs, ∀ k : Job, field k = field j → field (applyAttr now k a) = field j) :
    field (j.applyJobAttrs id now attrs) = field j := by
  rw [applyJobAttrs, derived]
  exact List.foldlRecOn (motive := fun k : Job => field k = field j) attrs _ rfl
    fun k same a member => applied a member k same

theorem applyJobAttrs_owner (now : Time) (id : String)
    (keeps : ∀ a ∈ attrs, a.name = "Job_Owner" → a.value = j.owner) :
    (j.applyJobAttrs id now attrs).owner = j.owner :=
  applyJobAttrs_field owner now id (fun k => congrArg (·.1) (k.deriveDefaults_identity id))
    fun a member k same => ((applyAttr_identity now k a).1 (same ▸ keeps a member)).trans same

theorem applyJobAttrs_egroup (now : Time) (id : String)
    (keeps : ∀ a ∈ attrs, a.name = "egroup" → a.value = j.text .egroup) :
    (j.applyJobAttrs id now attrs).text .egroup = j.text .egroup :=
  applyJobAttrs_field (·.text .egroup) now id
    (fun k => congrArg (·.2.1) (k.deriveDefaults_identity id))
    fun a member k same => ((applyAttr_identity now k a).2.1 (same ▸ keeps a member)).trans same

theorem applyJobAttrs_queue (now : Time) (id : String)
    (keeps : ∀ a ∈ attrs, a.name = "queue" → a.value = j.queue) :
    (j.applyJobAttrs id now attrs).queue = j.queue :=
  applyJobAttrs_field queue now id (fun k => congrArg (·.2.2) (k.deriveDefaults_identity id))
    fun a member k same => ((applyAttr_identity now k a).2.2 (same ▸ keeps a member)).trans same

end Job

namespace Server
variable {s : Server} {env : Env} {step : Step} {wanted : Job → Bool}

/-- A step counts no more running jobs of a kind than before, but for one that it starts
within the limits. The kind goes by a part of a job that the step leaves to running jobs. -/
theorem count_running_step (only : ∀ j, wanted j = true → j.state = .running)
    (blind : ∀ j k : Job, k.state = .running → j.state = .running → k.identity = j.identity →
      wanted k = true → wanted j = true)
    (keeps : ∀ given attrs, step = .request (.modifyJob given attrs) →
      ∀ key j, s.getJob env given = some (key, j) → j.state = .running →
        wanted (j.applyJobAttrs key env.now attrs) = true → wanted j = true) :
    (s.step env step).jobMgr.count wanted ≤ s.jobMgr.count wanted ∨
      ∃ given dest key j k, step = .request (.runJob given dest) ∧
        s.getJob env given = some (key, j) ∧ (j.state = .queued ∨ j.state = .provisioning) ∧
        s.enforceRunLimits j = true ∧ k.identity = j.identity ∧ wanted k = true ∧
        (s.step env step).jobMgr.count wanted ≤ s.jobMgr.count wanted + 1 := by
  by_cases old : ∀ id k, (s.step env step).job id = some k → wanted k = true →
      ∃ j, s.job id = some j ∧ wanted j = true
  · exact .inl (JobManager.count_le old)
  simp only [not_forall] at old
  obtain ⟨x, k, after, holds, fresh⟩ := old
  cases ran after (only k holds) with
  | still found running same =>
    exact absurd ⟨_, found, blind _ _ (only k holds) running same holds⟩ fresh
  | modified found running =>
    exact absurd ⟨_, job_of_getJob found, keeps _ _ rfl _ _ found running holds⟩ fresh
  | started found ready allowed same =>
    rename_i given j dest
    refine .inr ⟨given, dest, x, j, k, rfl, found, ready, allowed, same, holds,
      JobManager.count_le_succ x fun id k' other after' holds' => ?_⟩
    cases ran after' (only k' holds') with
    | still found running same => exact ⟨_, found, blind _ _ (only k' holds') running same holds'⟩
    | started found' =>
      rw [found] at found'
      cases found'
      exact absurd rfl other

/-- No limit is passed: all running jobs, those of an owner and those of a group. -/
structure WithinRunLimits (s : Server) : Prop where
  total : 0 < s.cfg.number "max_running" →
    (s.jobMgr.countByState .running : Int) ≤ s.cfg.number "max_running"
  owner : 0 < s.cfg.number "max_user_run" → ∀ owner,
    (s.jobMgr.countRunningByOwner owner : Int) ≤ s.cfg.number "max_user_run"
  group : 0 < s.cfg.number "max_group_run" → ∀ group ≠ "",
    (s.jobMgr.countRunningByGroup group : Int) ≤ s.cfg.number "max_group_run"

def FixesRunLimits (s : Server) (l : Env × Step) : Prop :=
  ∀ limit ∈ ["max_running", "max_user_run", "max_group_run"],
    (s.next l).cfg.number limit = s.cfg.number limit

instance (s : Server) (l : Env × Step) : Decidable (s.FixesRunLimits l) :=
  inferInstanceAs (Decidable (∀ limit ∈ _, _))

/-- A `ModifyJob` leaves owner and group to a job that runs. -/
def KeepsRunningIdentity (s : Server) (l : Env × Step) : Prop :=
  match l.2 with
  | .request (.modifyJob given attrs) => ∀ found ∈ s.getJob l.1 given, found.2.state = .running →
      ∀ a ∈ attrs, (a.name = "Job_Owner" → a.value = found.2.owner) ∧
        (a.name = "egroup" → a.value = found.2.text .egroup)
  | _ => True

instance (s : Server) (l : Env × Step) : Decidable (s.KeepsRunningIdentity l) := by
  unfold KeepsRunningIdentity
  split <;> infer_instance

/-- A limit that is tested at every start is kept. -/
theorem count_bounded_step {limit : Int} (only : ∀ j, wanted j = true → j.state = .running)
    (blind : ∀ j k : Job, k.state = .running → j.state = .running → k.identity = j.identity →
      wanted k = true → wanted j = true)
    (keeps : ∀ given attrs, step = .request (.modifyJob given attrs) →
      ∀ key j, s.getJob env given = some (key, j) → j.state = .running →
        wanted (j.applyJobAttrs key env.now attrs) = true → wanted j = true)
    (tested : ∀ given dest key j k, step = .request (.runJob given dest) →
      s.getJob env given = some (key, j) → (j.state = .queued ∨ j.state = .provisioning) →
      s.enforceRunLimits j = true → k.identity = j.identity → wanted k = true →
        (s.jobMgr.count wanted : Int) < limit)
    (before : (s.jobMgr.count wanted : Int) ≤ limit) :
    ((s.step env step).jobMgr.count wanted : Int) ≤ limit := by
  rcases count_running_step only blind keeps with
    fewer | ⟨given, dest, key, j, k, asked, found, ready, allowed, same, holds, more⟩
  · omega
  · have := tested given dest key j k asked found ready allowed same holds
    omega

theorem lt_of_belowLimit (below : s.belowLimit limit count = true) (positive : 0 < s.cfg.number limit) :
    (count : Int) < s.cfg.number limit := by
  simp only [belowLimit, Bool.or_eq_true, decide_eq_true_eq] at below
  omega

theorem WithinRunLimits.next {l : Env × Step} (within : s.WithinRunLimits)
    (fixed : s.FixesRunLimits l) (keeps : s.KeepsRunningIdentity l) :
    (s.next l).WithinRunLimits := by
  have kept : ∀ given attrs, l.2 = .request (.modifyJob given attrs) →
      ∀ key j, s.getJob l.1 given = some (key, j) → j.state = .running →
        (j.applyJobAttrs key l.1.now attrs).owner = j.owner ∧
          (j.applyJobAttrs key l.1.now attrs).text .egroup = j.text .egroup := by
    intro given attrs asked key j found running
    rw [KeepsRunningIdentity, asked] at keeps
    have same := keeps _ found running
    exact ⟨Job.applyJobAttrs_owner _ _ fun a member => (same a member).1,
      Job.applyJobAttrs_egroup _ _ fun a member => (same a member).2⟩
  have tests : ∀ j, s.enforceRunLimits j = true →
      s.belowLimit "max_running" (s.jobMgr.countByState .running) = true ∧
      s.belowLimit "max_user_run" (s.jobMgr.countRunningByOwner j.owner) = true ∧
      (j.text .egroup = "" ∨
        s.belowLimit "max_group_run" (s.jobMgr.countRunningByGroup (j.text .egroup)) = true) := by
    intro j allowed
    simpa [enforceRunLimits, and_assoc] using allowed
  constructor
  · intro positive
    rw [fixed "max_running" (by simp)] at positive ⊢
    refine count_bounded_step (fun j holds => by simpa using holds)
      (fun j k _ running _ _ => by simpa using running)
      (fun _ _ _ _ _ _ running _ => by simpa using running)
      (fun _ _ _ j _ _ _ _ allowed _ _ => lt_of_belowLimit (tests j allowed).1 positive) (within.total positive)
  · intro positive owner
    rw [fixed "max_user_run" (by simp)] at positive ⊢
    refine count_bounded_step (fun j holds => ?_) (fun j k _ running same holds => ?_)
      (fun given attrs asked key j found running holds => ?_) (fun _ _ _ j k _ _ _ allowed same holds => ?_)
      (within.owner positive owner) <;> simp only [Bool.and_eq_true, decide_eq_true_eq] at holds ⊢
    · exact holds.1
    · exact ⟨running, (congrArg (·.1) same).symm.trans holds.2⟩
    · exact ⟨running, (kept given attrs asked key j found running).1.symm.trans holds.2⟩
    · have mine : j.owner = owner := (congrArg (·.1) same).symm.trans holds.2
      exact lt_of_belowLimit (mine ▸ (tests j allowed).2.1) positive
  · intro positive group named
    rw [fixed "max_group_run" (by simp)] at positive ⊢
    refine count_bounded_step (fun j holds => ?_) (fun j k _ running same holds => ?_)
      (fun given attrs asked key j found running holds => ?_) (fun _ _ _ j k _ _ _ allowed same holds => ?_)
      (within.group positive group named) <;>
      simp only [Bool.and_eq_true, decide_eq_true_eq] at holds ⊢
    · exact holds.1
    · exact ⟨running, (congrArg (·.2.1) same).symm.trans holds.2⟩
    · exact ⟨running, (kept given attrs asked key j found running).2.symm.trans holds.2⟩
    · have mine : j.text .egroup = group := (congrArg (·.2.1) same).symm.trans holds.2
      have below := (tests j allowed).2.2.resolve_left (mine ▸ named)
      exact lt_of_belowLimit (mine ▸ below) positive

/-- From a server without jobs, over any run that leaves the limits alone and in which no
`ModifyJob` changes owner or group of a job that runs, the run limits are kept. -/
theorem run_limits_kept (s : Server) (empty : s.jobMgr.jobs = ∅) (ls : List (Env × Step))
    (fixed : Along Server.next FixesRunLimits s ls)
    (keeps : Along Server.next KeepsRunningIdentity s ls) :
    (ls.foldl Server.next s).WithinRunLimits := by
  have none : ∀ wanted, s.jobMgr.count wanted = 0 := by
    intro wanted
    simp [JobManager.count, empty]
  refine (fixed.and keeps).invariant (fun s l within met => within.next met.1 met.2) ⟨?_, ?_, ?_⟩
  all_goals intros; simp only [JobManager.countByState, JobManager.countRunningByOwner,
    JobManager.countRunningByGroup, none]; omega

def onePerUser : Server :=
  { Server.new "server" {} with
    cfg := (Config.newConfig "server").setNumber "max_user_run" 1 }

/-- A job of two owners each is started on one node. -/
def twoOwnersRun : List (Env × Step) :=
  atOnce [.manager (.createQueue "batch" []),
    .manager (.createNode "n1" [{ name := "np", value := "4" }]),
    .queueJob "alice@host" "batch" [], .commit "0.server",
    .queueJob "bob@host" "batch" [], .commit "1.server",
    .runJob "0.server" "n1", .runJob "1.server" "n1"]

theorem run_limits_kept_two_owners :
    0 < onePerUser.cfg.number "max_user_run" ∧
      (twoOwnersRun.foldl Server.next onePerUser).jobMgr.countByState .running = 2 ∧
      (twoOwnersRun.foldl Server.next onePerUser).WithinRunLimits :=
  ⟨by decide, by decide +kernel,
    run_limits_kept onePerUser rfl twoOwnersRun (by decide +kernel) (by decide +kernel)⟩

/-- The second job is given to the first owner while both jobs run. -/
theorem modify_passes_user_limit :
    Along Server.next FixesRunLimits onePerUser (twoOwnersRun ++
        atOnce [.modifyJob "1.server" [{ name := "Job_Owner", value := "alice@host" }]]) ∧
      ¬ ((twoOwnersRun ++
        atOnce [.modifyJob "1.server" [{ name := "Job_Owner", value := "alice@host" }]]).foldl
          Server.next onePerUser).WithinRunLimits := by
  refine ⟨by decide +kernel, fun within => ?_⟩
  exact absurd (within.owner (by decide +kernel) "alice@host") (by decide +kernel)

/-- No limit of a queue on its running jobs, or on those of one owner, is passed. -/
structure WithinQueueLimits (s : Server) : Prop where
  total : ∀ name q, s.queueMgr.lookup name = some q → 0 < q.number .maxRun →
    (s.jobMgr.countByStateInQueue name [.running] : Int) ≤ q.number .maxRun
  owner : ∀ name q, s.queueMgr.lookup name = some q → 0 < q.number .maxUserRun → ∀ owner,
    (s.jobMgr.countRunningByOwnerInQueue name owner : Int) ≤ q.number .maxUserRun

/-- A `RunJob` for a job that may start comes while its queue is below its limits. -/
def LeavesQueueRoom (s : Server) (l : Env × Step) : Prop :=
  match l.2 with
  | .request (.runJob given _) => ∀ found ∈ s.getJob l.1 given,
      found.2.state = .queued ∨ found.2.state = .provisioning →
      ∀ q ∈ s.queueMgr.lookup found.2.queue,
        q.reached .maxRun (s.jobMgr.countByStateInQueue found.2.queue [.running]) = false ∧
        q.reached .maxUserRun
          (s.jobMgr.countRunningByOwnerInQueue found.2.queue found.2.owner) = false
  | _ => True

instance (s : Server) (l : Env × Step) : Decidable (s.LeavesQueueRoom l) := by
  unfold LeavesQueueRoom
  split <;> infer_instance

theorem lt_of_not_reached {q : Queue} (below : q.reached limit count = false)
    (positive : 0 < q.number limit) : (count : Int) < q.number limit := by
  simpa [Queue.reached, positive] using below

/-- The numbers of a queue after a step that leaves the queues alone. -/
theorem number_of_policy {t : Server} (same : t.policy = s.policy)
    (found : t.queueMgr.lookup name = some q) :
    ∃ p, s.queueMgr.lookup name = some p ∧ p.number = q.number := by
  have here := congrFun same name
  rw [policy, policy, found, Option.map_some] at here
  obtain ⟨p, held, equal⟩ := Option.map_eq_some_iff.mp here.symm
  have numbers : p.policy.number = q.policy.number := congrArg Queue.number equal
  exact ⟨p, held, numbers⟩

theorem WithinQueueLimits.next {l : Env × Step} (within : s.WithinQueueLimits)
    (unmanaged : ∀ command, l.2 ≠ .request (.manager command))
    (unmodified : ∀ given attrs, l.2 ≠ .request (.modifyJob given attrs))
    (room : s.LeavesQueueRoom l) : (s.next l).WithinQueueLimits := by
  have policies : (s.next l).policy = s.policy := policy_step unmanaged
  have roomy : ∀ given dest key j, l.2 = .request (.runJob given dest) →
      s.getJob l.1 given = some (key, j) → (j.state = .queued ∨ j.state = .provisioning) →
      ∀ q, s.queueMgr.lookup j.queue = some q →
        q.reached .maxRun (s.jobMgr.countByStateInQueue j.queue [.running]) = false ∧
        q.reached .maxUserRun (s.jobMgr.countRunningByOwnerInQueue j.queue j.owner) = false := by
    intro given dest key j asked found ready q here
    rw [LeavesQueueRoom, asked] at room
    exact room _ found ready q here
  constructor
  · intro name q found positive
    obtain ⟨p, held, numbers⟩ := number_of_policy policies found
    rw [← numbers] at positive ⊢
    refine count_bounded_step (fun j holds => ?_) (fun j k _ running same holds => ?_)
      (fun given attrs asked => absurd asked (unmodified given attrs))
      (fun given dest key j k asked named ready _ same holds => ?_) (within.total name p held positive) <;>
      simp only [Bool.and_eq_true, decide_eq_true_eq, List.mem_singleton] at holds
    · exact holds.2
    · have queue : j.queue = name := (congrArg (·.2.2) same).symm.trans holds.1
      simp [queue, running]
    · obtain rfl : j.queue = name := (congrArg (·.2.2) same).symm.trans holds.1
      exact lt_of_not_reached (roomy given dest key j asked named ready p held).1 positive
  · intro name q found positive owner
    obtain ⟨p, held, numbers⟩ := number_of_policy policies found
    rw [← numbers] at positive ⊢
    refine count_bounded_step (fun j holds => ?_) (fun j k _ running same holds => ?_)
      (fun given attrs asked => absurd asked (unmodified given attrs))
      (fun given dest key j k asked named ready _ same holds => ?_)
      (within.owner name p held positive owner) <;>
      simp only [Bool.and_eq_true, decide_eq_true_eq] at holds ⊢
    · exact holds.1.2
    · exact ⟨⟨(congrArg (·.2.2) same).symm.trans holds.1.1, running⟩,
        (congrArg (·.1) same).symm.trans holds.2⟩
    · obtain rfl : j.queue = name := (congrArg (·.2.2) same).symm.trans holds.1.1
      obtain rfl : j.owner = owner := (congrArg (·.1) same).symm.trans holds.2
      exact lt_of_not_reached (roomy given dest key j asked named ready p held).2 positive

theorem WithinQueueLimits.of_no_jobs (empty : s.jobMgr.jobs.keys = []) : s.WithinQueueLimits := by
  have none : ∀ wanted, s.jobMgr.count wanted = 0 := by
    intro wanted
    rw [JobManager.count, List.map_eq_nil_iff.mp empty]
    rfl
  constructor <;> intros <;>
    simp only [JobManager.countByStateInQueue, JobManager.countRunningByOwnerInQueue, none] <;> omega

end Server
end OpenTorque.Pbs
