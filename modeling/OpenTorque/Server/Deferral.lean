import OpenTorque.Server.Lifecycle

/-! Holds and execution times over whole runs. A history variable records what clients
have been told, and the results say under which conditions on the steps the server
keeps to it. -/
namespace OpenTorque.Pbs
open Transition

namespace Job
variable {j k : Job} {now : Time} {attrs : List Attr} {id : String}

/-- A job that `RunJob` does not start and that is not running. -/
def Barred (j : Job) : Prop := j.state ∉ [.queued, .provisioning, .running]

theorem Barred.of_standing (barred : j.Barred) (same : k.standing = j.standing) : k.Barred := by
  have state : k.state = j.state := congrArg Prod.fst same
  rwa [Barred, state]

theorem Barred.setHoldTypes (barred : j.Barred) : (j.setHoldTypes now value).Barred := by
  rw [Job.setHoldTypes]
  split
  · simp [Barred]
  · exact barred

theorem Barred.setExecutionTime (barred : j.Barred) : (j.setExecutionTime now value).Barred := by
  rw [Job.setExecutionTime]
  split
  · exact barred
  · simp only
    split
    · simp [Barred]
    · exact barred

theorem Barred.applyAttr (barred : j.Barred) (a : Attr) : (applyAttr now j a).Barred := by
  by_cases hold : a.name = "Hold_Types"
  · rw [applyAttr_hold hold]
    exact barred.setHoldTypes
  by_cases time : a.name = "Execution_Time"
  · rw [applyAttr_time time]
    exact barred.setExecutionTime
  · exact barred.of_standing (applyAttr_standing hold time)

theorem Barred.applyJobAttrs (barred : j.Barred) (id : String) :
    (j.applyJobAttrs id now attrs).Barred :=
  (List.foldlRecOn (motive := Barred) attrs _ barred fun _ kept a _ => kept.applyAttr a).of_standing
    (deriveDefaults_standing _ id)

/-- Whether a list of attributes gives a `Hold_Types` that holds the job. -/
def asksHold (attrs : List Attr) : Bool := attrs.any fun a => a.name = "Hold_Types" && holds a.value

theorem barred_of_asksHold (asked : asksHold attrs) (j : Job) (id : String) :
    (j.applyJobAttrs id now attrs).Barred := by
  obtain ⟨a, member, hold⟩ := List.any_eq_true.mp asked
  simp only [Bool.and_eq_true, decide_eq_true_eq] at hold
  obtain ⟨before, after, rfl⟩ := List.append_of_mem member
  have here : ∀ k : Job, (applyAttr now k a).Barred := by
    intro k
    rw [applyAttr_hold hold.1, setHoldTypes, if_pos hold.2]
    simp [Barred]
  rw [applyJobAttrs, List.foldl_append, List.foldl_cons]
  exact (List.foldlRecOn (motive := Barred) after _ (here _)
    fun _ kept a _ => kept.applyAttr a).of_standing (deriveDefaults_standing _ id)

end Job

theorem Commits.standing {s : Server} (commits : Commits s env given key step m)
    (found : s.job key = some j) : m.standing = j.standing := by
  cases commits with
  | commit looked =>
    rw [Option.some.inj (found.symm.trans (Server.job_of_getJob looked))]
  | script looked =>
    rw [Option.some.inj (found.symm.trans (Server.job_of_getJob looked))]
    rfl

/-- The ways in which a barred job may stop being so. -/
inductive Leaves (s : Server) (env : Env) (key : String) (j k : Job) : Step → Prop where
  | entered (commits : Commits s env given key step m)
      (standing : k.standing = (j.committedState env.now, j.holdTypes, j.executionTime)) :
      Leaves s env key j k step
  | turnedAway (commits : Commits s env given key step m) (other : given ≠ key) :
      Leaves s env key j k step
  | task (commits : Commits s env given master step m) (member : key ∈ s.tasksOf master m)
      (state : k.state = if Job.holds m.holdTypes then .held else .queued) : Leaves s env key j k step
  | released (found : s.getJob env given = some (key, j)) (held : j.state = .held) :
      Leaves s env key j k (.request (.releaseJob given))
  | undone (job : d.job = key) : Leaves s env key j k (.dispatchFailed d)
  | promoted (waiting : j.state = .waiting)
      (due : Time.isZero j.executionTime = false ∧ j.executionTime < env.now) :
      Leaves s env key j k .promoteWaitingJobs

theorem Job.cloned_state (m : Job) (index : Int) (server : String) (env : Env) (id dest : String) :
    ((m.cloneForArray index server env.now).entered env id dest).state =
      if Job.holds m.holdTypes then .held else .queued := by
  have bare : Time.isZero (m.cloneForArray index server env.now).executionTime = true := rfl
  refine (congrArg Prod.fst (Job.entered_standing _ env id dest)).trans ?_
  simp only [Job.committedState, bare, Bool.not_true, Bool.false_and, Bool.false_eq_true, if_false]
  rfl

/-- A step leaves a barred job barred, with the execution time it has, or is one of those
in `Leaves`. -/
theorem Fate.barred {s : Server} (fate : Fate s env step key (some k)) (fresh : s.NextIsNew)
    (found : s.job key = some j) (barred : j.Barred) :
    k.Barred ∧ (k.executionTime = j.executionTime ∨
      ∃ given attrs, step = .request (.modifyJob given attrs) ∧ s.getJob env given = some (key, j)) ∨
    Leaves s env key j k step := by
  have same : ∀ {given m}, s.getJob env given = some (key, m) → m = j := fun looked =>
    Option.some.inj ((Server.job_of_getJob looked).symm.trans found)
  have lookup : ∀ {m}, s.job key = some m → m = j := fun looked =>
    Option.some.inj (looked.symm.trans found)
  generalize there : some k = after at fate
  cases fate with
  | kept =>
    obtain rfl : k = j := lookup there.symm
    exact .inl ⟨barred, .inl rfl⟩
  | deleted | purged | discarded => cases there
  | submitted => exact absurd (Assoc.mem_of_lookup found) fresh.1
  | scripted looked | cleared looked | moved looked | commented looked =>
    cases there
    obtain rfl := same looked
    exact .inl ⟨barred, .inl rfl⟩
  | ordered looked | dispatched looked =>
    cases there
    obtain rfl := lookup looked
    exact .inl ⟨barred, .inl rfl⟩
  | entered commits =>
    cases there
    refine .inr (.entered commits ?_)
    have kept := commits.standing found
    simp only [Job.standing, Prod.mk.injEq] at kept
    rw [Job.entered_standing, Job.committedState, Job.committedState, kept.2.1, kept.2.2]
  | turnedAway commits other => exact .inr (.turnedAway commits other)
  | task commits spec member named =>
    cases there
    refine .inr (.task commits (named ▸ Server.mem_tasksOf spec member) (Job.cloned_state ..))
  | held looked =>
    cases there
    obtain rfl := same looked
    exact .inl ⟨by simp [Job.Barred], .inl rfl⟩
  | released looked held =>
    obtain rfl := same looked
    exact .inr (.released looked held)
  | modified looked =>
    cases there
    obtain rfl := same looked
    exact .inl ⟨barred.applyJobAttrs key, .inr ⟨_, _, rfl, looked⟩⟩
  | rerun looked state =>
    obtain rfl := same looked
    exact absurd barred (by rcases state with state | state <;> simp [Job.Barred, state])
  | started looked ready =>
    obtain rfl := same looked
    exact absurd barred (by rcases ready with state | state <;> simp [Job.Barred, state])
  | ended looked =>
    cases there
    obtain rfl := same looked
    exact .inl ⟨by simp [Job.Barred, Server.obituary], .inl rfl⟩
  | undone => exact .inr (.undone rfl)
  | unreachable looked running | reconciled looked running =>
    obtain rfl := lookup looked
    exact absurd barred (by simp [Job.Barred, running])
  | promoted looked waiting due =>
    obtain rfl := lookup looked
    exact .inr (.promoted waiting due)

/-- The two ways in which a job comes into being. -/
inductive Created (s : Server) (env : Env) (key : String) (k : Job) : Step → Prop where
  | submitted (named : key = s.jobMgr.formatJobID) (made : k = s.submittedJob env user queue attrs) :
      Created s env key k (.request (.queueJob user dest attrs))
  | task (commits : Commits s env given master step m) (member : key ∈ s.tasksOf master m)
      (state : k.state = if Job.holds m.holdTypes then .held else .queued) : Created s env key k step

theorem Fate.created {s : Server} (fate : Fate s env step key (some k)) (missing : s.job key = none) :
    Created s env key k step := by
  have lost : ∀ {given m}, s.getJob env given ≠ some (key, m) := fun looked => by
    simp [Server.job_of_getJob looked] at missing
  have unknown : ∀ {given m}, ¬ Commits s env given key step m := by
    rintro given m (found | found) <;> exact lost found
  generalize there : some k = after at fate
  cases fate with
  | kept => simp [missing] at there
  | deleted | purged | discarded => cases there
  | submitted => exact .submitted rfl (Option.some.inj there)
  | entered commits | turnedAway commits => exact absurd commits unknown
  | task commits spec member named =>
    cases there
    exact .task commits (named ▸ Server.mem_tasksOf spec member) (Job.cloned_state ..)
  | ordered found | dispatched found | undone _ found | unreachable found | promoted found
    | reconciled found => simp [missing] at found
  | scripted found | held found | released found | cleared found | modified found | moved found
    | rerun found | commented found | started found | ended found => exact absurd found lost

namespace Server
variable {s : Server} {env : Env} {id key given : String} {j k : Job} {held : String → Bool}
  {attrs : List Attr} {taken : Step} {l : Env × Step}

theorem submittedJob_standing (s : Server) (env : Env) (user queue : String) (attrs : List Attr) :
    (s.submittedJob env user queue attrs).standing =
      (((Job.newJob queue s.cfg.serverName env.now).setOwner user).applyJobAttrs
        s.jobMgr.formatJobID env.now attrs).standing := by
  simp only [submittedJob]
  split <;> rfl

theorem submittedJob_idle (s : Server) (env : Env) (user queue : String) (attrs : List Attr) :
    (s.submittedJob env user queue attrs).state ≠ .running := by
  intro running
  have same := congrArg Prod.fst (s.submittedJob_standing env user queue attrs)
  cases Job.running_of_applyJobAttrs (same.symm.trans running)

theorem job_holdJob (found : s.getJob env given = some (key, j))
    (idle : j.state = .queued ∨ j.state = .waiting) :
    (s.step env (.request (.holdJob given))).job key = some (j.setState env.now .held) := by
  simp only [step, handle, handleHoldJob, found]
  rcases idle with state | state
  · rw [if_pos state, accept, answer, job_onQueues, job_putJob, Function.update_self]
  · rw [if_neg (by simp [state]), if_pos state, accept, answer, job_putJob, Function.update_self]

theorem job_modifyJob (found : s.getJob env given = some (key, j)) :
    (s.step env (.request (.modifyJob given attrs))).job key =
      some (j.applyJobAttrs key env.now attrs) := by
  simp only [step, handle, handleModifyJob, found]
  rw [accept, answer, job_onStore, job_putJob, Function.update_self]

def lifts (s : Server) (env : Env) (id : String) : Step → Bool
  | .request (.releaseJob given) => (s.getJob env given).any (·.1 = id)
  | _ => false

/-- The step is a request for a hold on the job that is acknowledged, or makes the job a
task of a held array. -/
def imposes (s : Server) (env : Env) (held : String → Bool) (id : String) : Step → Bool
  | .request (.holdJob given) => (s.getJob env given).any fun found =>
      found.1 = id && (found.2.state = .queued || found.2.state = .waiting)
  | .request (.modifyJob given attrs) =>
    Job.asksHold attrs && (s.getJob env given).any (·.1 = id)
  | .request (.queueJob _ _ attrs) => Job.asksHold attrs && id = s.jobMgr.formatJobID
  | .request (.commit given) | .request (.jobScript given _ true) =>
    (s.job id).isNone && (s.getJob env given).any fun found =>
      held found.1 && id ∈ s.tasksOf found.1 found.2
  | _ => false

/-- The jobs of the manager that are under an acknowledged hold after a step. -/
def noteHold (s : Server) (l : Env × Step) (held : String → Bool) (id : String) : Bool :=
  ((s.next l).job id).isSome && (held id && !s.lifts l.1 id l.2 || s.imposes l.1 held id l.2)

/-- The steps that keep every hold, in the state before the step. -/
def KeepsHolds (s : Server) (held : String → Bool) (env : Env) : Step → Prop
  | .request (.queueJob ..) => s.jobMgr.nextJobID < maxInt
  | .request (.commit given) | .request (.jobScript given _ true) =>
    ∀ found ∈ s.getJob env given, (∃ id ∈ found.1 :: s.tasksOf found.1 found.2, held id) →
      Job.holds found.2.holdTypes ∧ given = found.1
  | .dispatchFailed d => held d.job = false
  | .promoteWaitingJobs => ∀ id j, s.jobMgr.jobs.lookup id = some j → held id → j.state = .waiting →
      Time.isZero j.executionTime ∨ env.now ≤ j.executionTime
  | _ => True

theorem KeepsHolds.commits (keeps : s.KeepsHolds held env taken)
    (commits : Commits s env given key taken j)
    (member : id ∈ key :: s.tasksOf key j) (under : held id) :
    Job.holds j.holdTypes ∧ given = key := by
  cases commits with
  | commit found => exact keeps _ found ⟨id, member, under⟩
  | script found => exact keeps _ found ⟨id, member, under⟩

def HoldsKept (s : Server) (held : String → Bool) : Prop :=
  ∀ id, held id → ∃ j, s.job id = some j ∧ j.Barred

theorem Barred_of_held (state : k.state = if Job.holds types then .held else .queued)
    (under : Job.holds types) : k.Barred := by
  simp [Job.Barred, state, under]

theorem imposes_barred (imposed : s.imposes env held id taken) (keeps : s.KeepsHolds held env taken)
    (fresh : s.NextIsNew) (now : (s.step env taken).job id = some k) : k.Barred := by
  have fate : Fate s env taken id (some k) := now ▸ (s.step_effect env taken).fate id
  unfold imposes at imposed
  split at imposed
  case h_1 =>
    simp only [Option.any_eq_true, Bool.and_eq_true, Bool.or_eq_true, decide_eq_true_eq] at imposed
    obtain ⟨⟨key, j⟩, found, rfl, idle⟩ := imposed
    rw [job_holdJob found idle] at now
    rw [← Option.some.inj now]
    simp [Job.Barred]
  case h_2 =>
    simp only [Option.any_eq_true, Bool.and_eq_true, decide_eq_true_eq] at imposed
    obtain ⟨asked, ⟨key, j⟩, found, rfl⟩ := imposed
    rw [job_modifyJob found] at now
    rw [← Option.some.inj now]
    exact Job.barred_of_asksHold asked j _
  case h_3 =>
    simp only [Bool.and_eq_true, decide_eq_true_eq] at imposed
    obtain ⟨asked, rfl⟩ := imposed
    cases fate.created (AList.lookup_eq_none.mpr fresh.1) with
    | submitted _ made =>
      rw [made]
      exact (Job.barred_of_asksHold asked _ _).of_standing (s.submittedJob_standing ..)
    | task commits => cases commits
  -- A task that this commit has made.
  case h_4 =>
    simp only [Option.any_eq_true, Bool.and_eq_true, Option.isNone_iff_eq_none] at imposed
    obtain ⟨missing, ⟨master, j⟩, found, under, -⟩ := imposed
    cases fate.created missing with
    | task commits _ state =>
      cases commits with
      | commit looked =>
        obtain ⟨rfl, rfl⟩ := Prod.mk.inj (Option.some.inj (looked.symm.trans found))
        exact Barred_of_held state (keeps _ looked ⟨_, by simp, under⟩).1
  case h_5 =>
    simp only [Option.any_eq_true, Bool.and_eq_true, Option.isNone_iff_eq_none] at imposed
    obtain ⟨missing, ⟨master, j⟩, found, under, -⟩ := imposed
    cases fate.created missing with
    | task commits _ state =>
      cases commits with
      | script looked =>
        obtain ⟨rfl, rfl⟩ := Prod.mk.inj (Option.some.inj (looked.symm.trans found))
        exact Barred_of_held state (keeps _ looked ⟨_, by simp, under⟩).1
  case h_6 => cases imposed

theorem HoldsKept.next (kept : s.HoldsKept held) (fresh : s.NextIsNew)
    (keeps : s.KeepsHolds held env taken) :
    (s.step env taken).HoldsKept (s.noteHold (env, taken) held) := by
  intro id under
  simp only [noteHold, Bool.and_eq_true, Bool.or_eq_true, Bool.not_eq_true',
    Option.isSome_iff_exists] at under
  obtain ⟨⟨k, now⟩, ⟨before, unlifted⟩ | imposed⟩ := under
  · refine ⟨k, now, ?_⟩
    obtain ⟨j, found, barred⟩ := kept id before
    have fate : Fate s env taken id (some k) := now ▸ (s.step_effect env taken).fate id
    rcases fate.barred fresh found barred with ⟨still, -⟩ | leaves
    · exact still
    cases leaves with
    | entered commits standing =>
      have types : Job.holds j.holdTypes := by
        have same := commits.standing found
        simp only [Job.standing, Prod.mk.injEq] at same
        exact same.2.1 ▸ (keeps.commits commits (by simp) before).1
      have state : k.state = j.committedState env.now := congrArg Prod.fst standing
      simp [Job.Barred, state, Job.committedState, types]
    | turnedAway commits other => exact absurd (keeps.commits commits (by simp) before).2 other
    | task commits member state =>
      exact Barred_of_held state
        (keeps.commits commits (List.mem_cons_of_mem _ member) before).1
    | released looked => simp [lifts, looked] at unlifted
    | undone job =>
      have free : held _ = false := keeps
      simp [job, before] at free
    | promoted waiting due =>
      rcases keeps id j found before waiting with unset | later
      · simp [due.1] at unset
      · exact absurd due.2 (not_lt.mpr later)
  · exact ⟨k, now, imposes_barred imposed keeps fresh now⟩

def running (s : Server) (id : String) : Bool := (s.job id).any (·.state = .running)

def Starting (s : Server) (l : Env × Step) (id : String) : Prop :=
  s.running id = false ∧ (s.next l).running id

end Server

/-- Only `RunJob` moves a job to `Running`, and only from a state that is not barred. -/
theorem Fate.starting {s : Server} (fate : Fate s env step key (some k)) (running : k.state = .running)
    (idle : s.running key = false) : ∃ j, s.job key = some j ∧ ¬ j.Barred := by
  have stopped : ∀ {j}, s.job key = some j → j.state ≠ .running := by
    intro j found running
    simp [Server.running, found, running] at idle
  have found : ∀ {given j}, s.getJob env given = some (key, j) → j.state ≠ .running :=
    fun looked => stopped (Server.job_of_getJob looked)
  have waits : ∀ (j : Job) (dest : String), (j.entered env key dest).state ≠ .running := by
    intro j dest running
    have state : (j.entered env key dest).state = j.committedState env.now :=
      congrArg Prod.fst (j.entered_standing env key dest)
    rw [state, Job.committedState] at running
    split_ifs at running
  generalize there : some k = after at fate
  cases fate with
  | kept => exact absurd running (stopped there.symm)
  | deleted | purged | discarded => cases there
  | submitted =>
    cases there
    exact absurd running (s.submittedJob_idle env _ _ _)
  | entered | task =>
    cases there
    exact absurd running (waits _ _)
  | modified looked =>
    cases there
    exact absurd (Job.running_of_applyJobAttrs running) (found looked)
  | scripted looked | cleared looked | moved looked | commented looked =>
    cases there
    exact (found looked running).elim
  | ordered looked | dispatched looked =>
    cases there
    exact (stopped looked running).elim
  | started looked ready =>
    refine ⟨_, Server.job_of_getJob looked, ?_⟩
    rcases ready with state | state <;> simp [Job.Barred, state]
  | turnedAway | held | released | rerun | ended | undone | unreachable | promoted | reconciled =>
    cases there
    cases running

theorem Server.Starting.ready {s : Server} {id : String} (starting : s.Starting l id) :
    ∃ j, s.job id = some j ∧ ¬ j.Barred := by
  obtain ⟨k, found, state⟩ := (Option.any_eq_true _ _).mp starting.2
  have fate : Fate s l.1 l.2 id (some k) := found ▸ (s.step_effect l.1 l.2).fate id
  exact fate.starting (by simpa using state) starting.1

/-- In every run from the empty server whose steps keep holds, no step moves a job that is
under an acknowledged hold to `Running`. -/
theorem no_start_under_hold (name : String) (backend : Backend) (steps : List (Env × Step))
    (keeps : Along (watched Server.next Server.noteHold) (fun w l => w.1.KeepsHolds w.2 l.1 l.2)
      (Server.new name { backend }, fun _ => false) steps) :
    Along (watched Server.next Server.noteHold) (fun w l => ∀ id, w.2 id → ¬ w.1.Starting l id)
      (Server.new name { backend }, fun _ => false) steps := by
  refine keeps.entails (I := fun w => w.1.HoldsKept w.2 ∧ w.1.Ahead) ?_ ?_ ⟨by simp [Server.HoldsKept], .new name backend⟩
  · rintro ⟨s, held⟩ ⟨env, step⟩ ⟨kept, ahead⟩ keeps
    have room : step.HasRoom s := by
      unfold Step.HasRoom
      split
      · exact keeps
      · trivial
    obtain ⟨next, numbered⟩ := ahead
    exact ⟨kept.next numbered.nextIsNew keeps, Server.Ahead.step ⟨next, numbered⟩ env step room⟩
  · rintro ⟨s, held⟩ l ⟨kept, -⟩ - id under starting
    obtain ⟨j, found, barred⟩ := kept id under
    obtain ⟨k, held, ready⟩ := starting.ready
    obtain rfl : j = k := Option.some.inj (found.symm.trans held)
    exact ready barred

instance (s : Server) (held : String → Bool) (env : Env) (step : Step) :
    Decidable (s.KeepsHolds held env step) := by
  induction step using Step.casesOn with
  | request r =>
    induction r using Request.casesOn with
    | jobScript _ _ finish =>
      induction finish using Bool.casesOn <;> unfold Server.KeepsHolds <;> infer_instance
    | _ => unfold Server.KeepsHolds; infer_instance
  | _ => unfold Server.KeepsHolds; infer_instance

/-- A job is submitted with a hold, released, held again and asked to run. -/
def heldRequests : List Request :=
  [.manager (.createQueue "batch" []), .manager (.createNode "n1" []),
    .queueJob "alice@host" "batch" [{ name := "Hold_Types", value := "u" }], .commit "0.server",
    .runJob "0.server" "n1", .releaseJob "0.server", .holdJob "0.server", .runJob "0.server" "n1"]

theorem no_start_under_hold_run :
    Along (watched Server.next Server.noteHold) (fun w l => w.1.KeepsHolds w.2 l.1 l.2)
        (Server.new "server" {}, fun _ => false) (atOnce heldRequests) ∧
      Along (watched Server.next Server.noteHold) (fun w l => ∀ id, w.2 id → ¬ w.1.Starting l id)
        (Server.new "server" {}, fun _ => false) (atOnce heldRequests) :=
  have keeps : Along (watched Server.next Server.noteHold) (fun w l => w.1.KeepsHolds w.2 l.1 l.2)
      (Server.new "server" {}, fun _ => false) (atOnce heldRequests) := by decide +kernel
  ⟨keeps, no_start_under_hold "server" .file _ keeps⟩

/-- A held job is given an execution time, which passes. -/
def heldThenWaiting : List (Env × Step) :=
  atOnce [.manager (.createQueue "batch" []), .manager (.createNode "n1" []),
    .queueJob "alice@host" "batch" [], .commit "0.server", .holdJob "0.server",
    .modifyJob "0.server" [{ name := "Execution_Time", value := "100" }]] ++
  [({ now := Time.ofUnix 101 }, .promoteWaitingJobs)]

/-- The server with the holds it has acknowledged, from the empty server. -/
def withHolds (steps : List (Env × Step)) : Server × (String → Bool) :=
  steps.foldl (watched Server.next Server.noteHold) (Server.new "server" {}, fun _ => false)

/-- `RunJob` starts the job, which nobody has released. -/
theorem held_job_starts :
    (withHolds heldThenWaiting).2 "0.server" = true ∧
      (withHolds heldThenWaiting).1.Starting
        ({ now := Time.ofUnix 101 }, .request (.runJob "0.server" "n1")) "0.server" := by
  simp only [Server.Starting]
  decide +kernel

/-- The execution time a job is left with by one attribute. -/
def Job.giveTime (given : Option Time) (a : Attr) : Option Time :=
  if a.name = "Execution_Time" then ((parseInt a.value).map Time.ofUnixExact).or given else given

/-- An attribute whose execution time, if it is one, `time.Unix` can represent. -/
def Job.Datable (a : Attr) : Prop :=
  a.name = "Execution_Time" → ∀ sec ∈ parseInt a.value, sec + Time.epoch ≤ maxInt

instance (a : Attr) : Decidable (Job.Datable a) := inferInstanceAs (Decidable (_ → _))

/-- A job that may start no earlier than a time: the time has come, or the job waits for
exactly this time. -/
def Job.Awaits (j : Job) (now due : Time) : Prop := due ≤ now ∨ j.executionTime = due ∧ j.Barred

namespace Job
variable {j k : Job} {now later due : Time} {attrs : List Attr} {given : Option Time}

theorem Awaits.mono (awaits : j.Awaits now due) (passed : now ≤ later) : j.Awaits later due :=
  awaits.imp_left passed.trans'

theorem Awaits.of_standing (awaits : j.Awaits now due) (same : k.standing = j.standing) :
    k.Awaits now due := by
  have time : k.executionTime = j.executionTime := congrArg (·.2.2) same
  exact awaits.imp_right fun waits => ⟨time.trans waits.1, waits.2.of_standing same⟩

theorem Awaits.applyAttr (awaits : ∀ due ∈ given, j.Awaits now due) (datable : Datable a) :
    ∀ due ∈ giveTime given a, (applyAttr now j a).Awaits now due := by
  intro due member
  by_cases time : a.name = "Execution_Time"
  · rw [giveTime, if_pos time] at member
    rw [applyAttr_time time, setExecutionTime]
    cases read : parseInt a.value with
    | none =>
      rw [read] at member
      exact awaits due member
    | some ts =>
      simp only [read, Option.map_some, Option.some_or, Option.mem_some_iff] at member
      have exact : Time.ofUnix ts = due := by
        rw [← member]
        exact Time.ofUnix_eq (parseInt_fits read).1 (datable time ts read)
      simp only [exact]
      split
      · exact .inr ⟨rfl, by simp [Barred]⟩
      case isFalse passed => exact .inl (not_lt.mp passed)
  · rw [giveTime, if_neg time] at member
    rcases awaits due member with passed | ⟨same, barred⟩
    · exact .inl passed
    · refine .inr ⟨?_, barred.applyAttr a⟩
      by_cases hold : a.name = "Hold_Types"
      · rw [applyAttr_hold hold, setHoldTypes]
        split <;> exact same
      · exact (congrArg (·.2.2) (applyAttr_standing hold time)).trans same

theorem Awaits.applyJobAttrs (awaits : ∀ due ∈ given, j.Awaits now due)
    (datable : ∀ a ∈ attrs, Datable a) (id : String) :
    ∀ due ∈ attrs.foldl giveTime given, (j.applyJobAttrs id now attrs).Awaits now due := by
  intro due member
  refine Awaits.of_standing ?_ (deriveDefaults_standing _ id)
  induction attrs generalizing j given with
  | nil => exact awaits due member
  | cons a attrs ih =>
    rw [List.forall_mem_cons] at datable
    exact ih (Awaits.applyAttr awaits datable.1) datable.2 member

end Job

namespace Server
variable {s : Server} {env : Env} {id key : String} {j k : Job} {due : String → Option Time}
  {taken : Step} {clock : Time}

/-- The time before which a job of the manager must not start, after a step. -/
def noteTime (s : Server) (env : Env) (due : String → Option Time) (id : String) : Step → Option Time
  | .request (.queueJob _ _ attrs) =>
    if id = s.jobMgr.formatJobID then attrs.foldl Job.giveTime none else due id
  | .request (.modifyJob given attrs) =>
    if (s.getJob env given).any (·.1 = id) then attrs.foldl Job.giveTime (due id) else due id
  | .request (.commit given) | .request (.jobScript given _ true) =>
    if (s.job id).isSome then due id
    else (s.getJob env given).bind fun found =>
      if id ∈ s.tasksOf found.1 found.2 then due found.1 else none
  | _ => due id

/-- The clock of the last step and the time each job of the manager has to wait for. -/
def noteTimes (s : Server) (l : Env × Step) (w : Time × (String → Option Time)) :
    Time × (String → Option Time) :=
  (l.1.now, fun id => ((s.next l).job id).bind fun _ => s.noteTime l.1 w.2 id l.2)

/-- The steps that keep every execution time, in the state before the step. -/
def KeepsTimes (s : Server) (due : String → Option Time) (env : Env) : Step → Prop
  | .request (.queueJob _ _ attrs) =>
    s.jobMgr.nextJobID < maxInt ∧ ∀ a ∈ attrs, Job.Datable a
  | .request (.modifyJob _ attrs) => ∀ a ∈ attrs, Job.Datable a
  | .request (.commit given) | .request (.jobScript given _ true) =>
    ∀ found ∈ s.getJob env given, given ≠ found.1 ∨ s.tasksOf found.1 found.2 ≠ [] →
      ∀ id ∈ found.1 :: s.tasksOf found.1 found.2, ∀ time ∈ due id, time ≤ env.now
  | .request (.releaseJob given) => ∀ found ∈ s.getJob env given, found.2.state = .held →
      ∀ time ∈ due found.1, time ≤ env.now
  | .dispatchFailed d => ∀ time ∈ due d.job, time ≤ env.now
  | _ => True

def TimesKept (s : Server) (clock : Time) (due : String → Option Time) : Prop :=
  ∀ id, ∀ time ∈ due id, ∃ j, s.job id = some j ∧ j.Awaits clock time

theorem KeepsTimes.commits (keeps : s.KeepsTimes due env taken)
    (commits : Commits s env given key taken j) (special : given ≠ key ∨ s.tasksOf key j ≠ [])
    (member : id ∈ key :: s.tasksOf key j) : ∀ time ∈ due id, time ≤ env.now := by
  cases commits with
  | commit found => exact keeps _ found special id member
  | script found => exact keeps _ found special id member

/-- One step on a job that has to wait and is not modified. -/
theorem TimesKept.old (kept : s.TimesKept clock due) (fresh : s.NextIsNew)
    (keeps : s.KeepsTimes due env taken) (passed : clock ≤ env.now) (start : 0 ≤ env.now)
    (now : (s.step env taken).job id = some k) (member : time ∈ due id)
    (other : ∀ given attrs j, taken = .request (.modifyJob given attrs) →
      s.getJob env given ≠ some (id, j)) : k.Awaits env.now time := by
  obtain ⟨j, found, awaits⟩ := kept id time member
  rcases awaits with come | ⟨same, barred⟩
  · exact .inl (come.trans passed)
  have fate : Fate s env taken id (some k) := now ▸ (s.step_effect env taken).fate id
  rcases fate.barred fresh found barred with ⟨still, kept | ⟨given, attrs, named, looked⟩⟩ | leaves
  · exact .inr ⟨kept.trans same, still⟩
  · exact absurd looked (other given attrs j named)
  have late : ∀ {a b : String} {m : Job}, Commits s env a b taken m → a ≠ b ∨ s.tasksOf b m ≠ [] →
      id ∈ b :: s.tasksOf b m → k.Awaits env.now time := fun commits special listed =>
    .inl (keeps.commits commits special listed time member)
  cases leaves with
  | entered commits standing =>
    have state : k.state = j.committedState env.now := congrArg Prod.fst standing
    have kept : k.executionTime = time := (congrArg (·.2.2) standing).trans same
    rw [Job.committedState, same] at state
    split_ifs at state with hold wait
    · exact .inr ⟨kept, by simp [Job.Barred, state]⟩
    · exact .inr ⟨kept, by simp [Job.Barred, state]⟩
    · simp only [Bool.and_eq_true, Bool.not_eq_true', decide_eq_true_eq, not_and_or,
        Bool.not_eq_false] at wait
      rcases wait with zero | past
      · have none : time = 0 := by simpa [Time.isZero] using zero
        exact .inl (none ▸ start)
      · exact .inl (not_lt.mp past)
  | turnedAway commits distinct => exact late commits (.inl distinct) (by simp)
  | task commits listed =>
    exact late commits (.inr (List.ne_nil_of_mem listed)) (List.mem_cons_of_mem _ listed)
  | released looked held => exact .inl (keeps _ looked held time member)
  | undone job => exact .inl (keeps time (job ▸ member))
  | promoted _ come => exact .inl (same ▸ come.2.le)

theorem TimesKept.next (kept : s.TimesKept clock due) (fresh : s.NextIsNew)
    (keeps : s.KeepsTimes due env taken) (passed : clock ≤ env.now) (start : 0 ≤ env.now) :
    (s.step env taken).TimesKept env.now
      fun id => ((s.step env taken).job id).bind fun _ => s.noteTime env due id taken := by
  intro id time member
  obtain ⟨k, now, noted⟩ := Option.bind_eq_some_iff.mp member
  refine ⟨k, now, ?_⟩
  have fate : Fate s env taken id (some k) := now ▸ (s.step_effect env taken).fate id
  have old := fun (member : time ∈ due id) => kept.old (k := k) fresh keeps passed start now member
  unfold noteTime at noted
  split at noted
  case h_1 =>
    split at noted
    case isTrue named =>
      subst named
      cases fate.created (AList.lookup_eq_none.mpr fresh.1) with
      | submitted _ made =>
        rw [made]
        exact (Job.Awaits.applyJobAttrs (by simp) keeps.2 _ time noted).of_standing
          (s.submittedJob_standing ..)
      | task commits => cases commits
    · exact old noted (by simp)
  case h_2 given attrs =>
    split at noted
    case isTrue here =>
      obtain ⟨⟨key, j⟩, found, same⟩ := (Option.any_eq_true _ _).mp here
      obtain rfl : key = id := by simpa using same
      rw [job_modifyJob found] at now
      rw [← Option.some.inj now]
      have before : ∀ time ∈ due key, j.Awaits env.now time := by
        intro time member
        obtain ⟨j', held, awaits⟩ := kept key time member
        obtain rfl : j' = j := Option.some.inj (held.symm.trans (job_of_getJob found))
        exact awaits.mono passed
      exact Job.Awaits.applyJobAttrs before keeps key time noted
    case isFalse other =>
      refine old noted fun given' attrs' j named looked => other ?_
      cases named
      simp [looked]
  case h_5 => exact old noted (by simp_all)
  all_goals
    split at noted
    · exact old noted (by simp)
    case isFalse missing =>
      obtain ⟨⟨master, m⟩, found, listed⟩ := Option.bind_eq_some_iff.mp noted
      simp only [Option.ite_none_right_eq_some] at listed
      exact .inl (keeps _ found (.inr (List.ne_nil_of_mem listed.1)) master (by simp) time listed.2)

end Server

/-- In every run from the empty server at times that never go back and whose steps keep
execution times, a job moves to `Running` only when the time it was last given has come. -/
theorem starts_at_execution_time (name : String) (backend : Backend) (steps : List (Env × Step))
    (keeps : Along (watched Server.next Server.noteTimes)
      (fun w l => w.2.1 ≤ l.1.now ∧ w.1.KeepsTimes w.2.2 l.1 l.2)
      (Server.new name { backend }, 0, fun _ => none) steps) :
    Along (watched Server.next Server.noteTimes)
      (fun w l => ∀ id, ∀ time ∈ w.2.2 id, w.1.Starting l id → time ≤ l.1.now)
      (Server.new name { backend }, 0, fun _ => none) steps := by
  refine keeps.entails (I := fun w => w.1.TimesKept w.2.1 w.2.2 ∧ 0 ≤ w.2.1 ∧ w.1.Ahead) ?_ ?_
    ⟨by simp [Server.TimesKept], le_rfl, .new name backend⟩
  · rintro ⟨s, clock, due⟩ ⟨env, step⟩ ⟨kept, start, ahead⟩ ⟨passed, keeps⟩
    have room : step.HasRoom s := by
      unfold Step.HasRoom
      split
      · exact keeps.1
      · trivial
    obtain ⟨next, numbered⟩ := ahead
    exact ⟨kept.next numbered.nextIsNew keeps passed (start.trans passed), start.trans passed,
      Server.Ahead.step ⟨next, numbered⟩ env step room⟩
  · rintro ⟨s, clock, due⟩ l ⟨kept, -⟩ ⟨passed, -⟩ id time member starting
    obtain ⟨j, found, awaits⟩ := kept id time member
    obtain ⟨k, held, ready⟩ := starting.ready
    obtain rfl : j = k := Option.some.inj (found.symm.trans held)
    rcases awaits with come | ⟨-, barred⟩
    · exact come.trans passed
    · exact absurd barred ready

instance (s : Server) (due : String → Option Time) (env : Env) (step : Step) :
    Decidable (s.KeepsTimes due env step) := by
  induction step using Step.casesOn with
  | request r =>
    induction r using Request.casesOn with
    | jobScript _ _ finish =>
      induction finish using Bool.casesOn <;> unfold Server.KeepsTimes <;> infer_instance
    | _ => unfold Server.KeepsTimes; infer_instance
  | _ => unfold Server.KeepsTimes; infer_instance

/-- A queue and a node, and a job with the attributes. -/
def submittedAt (attrs : List Attr) : List (Env × Step) :=
  atOnce [.manager (.createQueue "batch" []), .manager (.createNode "n1" []),
    .queueJob "alice@host" "batch" attrs, .commit "0.server"]

/-- A job with an execution time is asked to run before and after the time. -/
def deferredRun : List (Env × Step) :=
  submittedAt [{ name := "Execution_Time", value := "100" }] ++
  [({ now := Time.ofUnix 50 }, .request (.runJob "0.server" "n1")),
    ({ now := Time.ofUnix 101 }, .promoteWaitingJobs),
    ({ now := Time.ofUnix 102 }, .request (.runJob "0.server" "n1"))]

theorem starts_at_execution_time_run :
    Along (watched Server.next Server.noteTimes)
        (fun w l => w.2.1 ≤ l.1.now ∧ w.1.KeepsTimes w.2.2 l.1 l.2)
        (Server.new "server" {}, 0, fun _ => none) deferredRun ∧
      (fromEmpty deferredRun).running "0.server" = true ∧
      Along (watched Server.next Server.noteTimes)
        (fun w l => ∀ id, ∀ time ∈ w.2.2 id, w.1.Starting l id → time ≤ l.1.now)
        (Server.new "server" {}, 0, fun _ => none) deferredRun :=
  have keeps : Along (watched Server.next Server.noteTimes)
      (fun w l => w.2.1 ≤ l.1.now ∧ w.1.KeepsTimes w.2.2 l.1 l.2)
      (Server.new "server" {}, 0, fun _ => none) deferredRun := by decide +kernel
  ⟨keeps, by decide +kernel, starts_at_execution_time "server" .file _ keeps⟩

/-- The server with the times its jobs have to wait for, from the empty server. -/
def withTimes (steps : List (Env × Step)) : Server × Time × (String → Option Time) :=
  steps.foldl (watched Server.next Server.noteTimes) (Server.new "server" {}, 0, fun _ => none)

/-- An array job is submitted with an execution time. -/
def deferredArray : List (Env × Step) :=
  submittedAt [{ name := "Execution_Time", value := "100" },
    { name := "job_array_request", value := "1-2" }]

/-- The first task of the array starts long before the time. -/
theorem array_task_starts_early :
    (withTimes deferredArray).2.2 "0[1].server" = some (Time.ofUnixExact 100) ∧
      (withTimes deferredArray).1.Starting
        ({ now := Time.ofUnix 50 }, .request (.runJob "0[1].server" "n1")) "0[1].server" ∧
      Time.ofUnix 50 < Time.ofUnixExact 100 := by
  simp only [Server.Starting]
  decide +kernel

end OpenTorque.Pbs
