import OpenTorque.Server.Deferral
import OpenTorque.Server.Limits
import OpenTorque.Server.Release

/-! When a job with dependencies starts. `checkDependencies` asks the jobs the manager still
holds; a job that has gone counts as one that ended well. How a job has ended is kept here
by a history variable, which sees every obituary. -/
namespace OpenTorque.Pbs
open Transition

namespace Job
variable {j : Job} {now : Time} {attrs : List Attr}

theorem applyAttr_exitStatus (a : Attr) : (applyAttr now j a).exitStatus = j.exitStatus := by
  unfold applyAttr
  split
  · rfl
  · unfold applySpecial
    split
    case h_4 => unfold setHoldTypes; split <;> rfl
    case h_5 =>
      unfold setExecutionTime
      split
      · rfl
      · simp only
        split <;> rfl
    case h_12 => split <;> rfl
    case h_13 => split <;> rfl
    all_goals rfl

@[simp] theorem fillText_exitStatus (j : Job) :
    (j.fillText field value).exitStatus = j.exitStatus := by
  unfold fillText
  split <;> rfl

theorem applyJobAttrs_exitStatus (j : Job) (id : String) :
    (j.applyJobAttrs id now attrs).exitStatus = j.exitStatus := by
  simp only [applyJobAttrs, deriveDefaults, fillText_exitStatus]
  exact List.foldlRecOn (motive := fun k : Job => k.exitStatus = j.exitStatus) attrs _ rfl
    fun k same a _ => (applyAttr_exitStatus a).trans same

end Job

/-- What is known about the jobs that have ended: the status of the last obituary of a job,
and a job that the manager no longer holds as it was when it left. -/
structure Ends where
  exit : String → Option Int := fun _ => none
  last : String → Option Job := fun _ => none

namespace Server
variable {s : Server} {l : Env × Step} {ends : Ends} {id key : String} {j k : Job}

def obituaryOf (s : Server) (l : Env × Step) : Option (String × Int) :=
  match l.2 with
  | .request (.jobObit remote privileged given status _) =>
    if s.Heard remote privileged then (s.getJob l.1 given).map fun found => (found.1, status)
    else none
  | _ => none

def noteEnds (s : Server) (l : Env × Step) (ends : Ends) : Ends where
  exit id :=
    match s.obituaryOf l with
    | some (key, status) => if id = key then some status else ends.exit id
    | none => ends.exit id
  last id := if ((s.next l).job id).isNone then (s.job id).or (ends.last id) else ends.last id

/-- A job that has ended did so with the status of its last obituary. -/
structure EndsKnown (s : Server) (ends : Ends) : Prop where
  held : ∀ id j, s.job id = some j → j.state = .complete → ends.exit id = some j.exitStatus
  gone : ∀ id j, s.job id = none → ends.last id = some j → j.state = .complete →
    ends.exit id = some j.exitStatus

/-- An obituary ends one job and leaves the others alone. -/
theorem job_of_obituaryOf (noted : s.obituaryOf l = some (key, status)) :
    ∃ j attrs, s.job key = some j ∧
      (s.next l).job = Function.update s.job key (some (obituary j l.1 status attrs)) := by
  obtain ⟨env, step⟩ := l
  unfold obituaryOf at noted
  split at noted
  case h_1 remote privileged given status' attrs named =>
    split at noted
    case isTrue heard =>
      obtain ⟨⟨id, j⟩, found, same⟩ := Option.map_eq_some_iff.mp noted
      cases same
      obtain rfl : step = _ := named
      refine ⟨j, attrs, job_of_getJob found, ?_⟩
      show (s.handleJobObit env remote privileged given status attrs).server.job = _
      rw [handleJobObit_heard heard found, job_finish]
    case isFalse => cases noted
  case h_2 => cases noted

theorem submittedJob_unfinished (s : Server) (env : Env) (user queue : String) (attrs : List Attr) :
    (s.submittedJob env user queue attrs).state ≠ .complete := by
  intro complete
  have same := congrArg Prod.fst (s.submittedJob_standing env user queue attrs)
  cases Job.state_of_applyJobAttrs (by decide) (by decide) (same.symm.trans complete)

theorem entered_unfinished (j : Job) (env : Env) (id dest : String) :
    (j.entered env id dest).state ≠ .complete := by
  intro complete
  have state : (j.entered env id dest).state = j.committedState env.now :=
    congrArg Prod.fst (j.entered_standing env id dest)
  rw [state, Job.committedState] at complete
  split_ifs at complete

/-- Without an obituary only a job that has ended is left as one, with its status. -/
theorem ended_of_silent {env : Env} {taken : Step} (silent : s.obituaryOf (env, taken) = none)
    (after : (s.step env taken).job id = some k) (complete : k.state = .complete) :
    ∃ j, s.job id = some j ∧ j.state = .complete ∧ j.exitStatus = k.exitStatus := by
  have fate := (s.step_effect env taken).fate id
  rw [after] at fate
  generalize kept : some k = result at fate
  cases fate with
  | kept => exact ⟨k, kept.symm, complete, rfl⟩
  | deleted | purged | discarded => cases kept
  | submitted =>
    cases kept
    exact absurd complete (s.submittedJob_unfinished _ _ _ _)
  | entered | task =>
    cases kept
    exact absurd complete (entered_unfinished _ _ _ _)
  | turnedAway | held | released | rerun | started | undone | unreachable | promoted | reconciled =>
    cases kept
    cases complete
  | scripted found | cleared found | moved found | commented found =>
    cases kept
    exact ⟨_, job_of_getJob found, complete, rfl⟩
  | ordered found | dispatched found =>
    cases kept
    exact ⟨_, found, complete, rfl⟩
  | modified found =>
    cases kept
    exact ⟨_, job_of_getJob found, Job.state_of_applyJobAttrs (by decide) (by decide) complete,
      (Job.applyJobAttrs_exitStatus ..).symm⟩
  | ended found =>
    rename_i given j remote privileged status attrs
    have unheard : ¬ s.Heard remote privileged := by simpa [obituaryOf, found] using silent
    have same : s.step env (.request (.jobObit remote privileged given status attrs)) = s :=
      handleJobObit_unheard unheard
    rw [same] at after
    exact ⟨k, after, complete, rfl⟩

theorem EndsKnown.next (known : s.EndsKnown ends) : (s.next l).EndsKnown (s.noteEnds l ends) := by
  constructor
  · intro id k after complete
    cases noted : s.obituaryOf l with
    | none =>
      obtain ⟨j, found, state, same⟩ := ended_of_silent noted after complete
      simp only [noteEnds, noted]
      rw [known.held id j found state, same]
    | some obit =>
      obtain ⟨key, status⟩ := obit
      obtain ⟨j, attrs, -, jobs⟩ := job_of_obituaryOf noted
      simp only [noteEnds, noted]
      rw [jobs] at after
      by_cases same : id = key
      · subst same
        rw [Function.update_self] at after
        obtain rfl := Option.some.inj after
        rw [if_pos rfl]
        rfl
      · rw [Function.update_of_ne same] at after
        rw [if_neg same]
        exact known.held id k after complete
  · intro id j missing left complete
    have kept : (s.noteEnds l ends).exit id = ends.exit id := by
      cases noted : s.obituaryOf l with
      | none => simp only [noteEnds, noted]
      | some obit =>
        obtain ⟨key, status⟩ := obit
        obtain ⟨_, _, -, jobs⟩ := job_of_obituaryOf noted
        have other : id ≠ key := by
          rintro rfl
          simp [jobs] at missing
        simp only [noteEnds, noted, if_neg other]
    rw [kept]
    simp only [noteEnds, missing, Option.isNone_none, if_true, Option.or_eq_some_iff] at left
    rcases left with present | ⟨absent, left⟩
    · exact known.held id j present complete
    · exact known.gone id j absent left complete

theorem handleRunJob_unmet {env : Env} (found : s.getJob env given = some (id, j))
    (unmet : s.checkDependencies env j ≠ .met)
    (after : (s.handleRunJob env given dest).server.job id = some k) : k.state = j.state := by
  have same : s.job id = some k → k.state = j.state := fun held =>
    congrArg Job.state (Option.some.inj (held.symm.trans (job_of_getJob found)))
  unfold handleRunJob at after
  simp only [found] at after
  split at after
  · exact same after
  split at after
  · exact same after
  split at after
  · exact same after
  split at after
  · exact same after
  case h_2 comment failed =>
    rw [refuse, answer, job_putJob, Function.update_self] at after
    obtain rfl := Option.some.inj after
    rfl
  case h_3 met => exact absurd met unmet

/-- Only `RunJob` starts a job, and only if every dependency is met. -/
theorem Starting.met {env : Env} {taken : Step} (starting : s.Starting (env, taken) id) :
    ∃ given dest j, taken = .request (.runJob given dest) ∧ s.getJob env given = some (id, j) ∧
      s.checkDependencies env j = .met := by
  obtain ⟨k, after, state⟩ := (Option.any_eq_true _ _).mp starting.2
  have running : k.state = .running := of_decide_eq_true state
  have idle : ∀ {j}, s.job id = some j → j.state ≠ .running := by
    intro j found running
    simpa [Server.running, found, running] using starting.1
  cases ran after running with
  | still found before => exact absurd before (idle found)
  | modified found before => exact absurd before (idle (job_of_getJob found))
  | started found =>
    refine ⟨_, _, _, rfl, found, ?_⟩
    by_contra unmet
    exact idle (job_of_getJob found) ((handleRunJob_unmet found unmet after).symm.trans running)

theorem met_of_checkDependencies (met : s.checkDependencies env j = .met)
    (listed : dep ∈ dependencies j.dependList) : s.dependency env dep = .met := by
  by_contra unmet
  rw [checkDependencies] at met
  cases first : ((dependencies j.dependList).map (s.dependency env)).find? (· ≠ .met) with
  | none =>
    have all := List.find?_eq_none.mp first (s.dependency env dep) (List.mem_map_of_mem listed)
    exact all (by simpa using unmet)
  | some verdict =>
    rw [first, Option.getD_some] at met
    simpa [met] using List.find?_some first

/-- Whenever a job is asked to run, each job that has to have ended well before it is
still held, or it was `Complete` with status zero when it left. -/
def KeepsDependencies (s : Server) (last : String → Option Job) (env : Env) : Step → Prop
  | .request (.runJob given _) => ∀ found ∈ s.getJob env given,
      ∀ dep ∈ dependencies found.2.dependList, dep.1 = "afterok" → s.getJob env dep.2 = none →
      ∃ key, s.jobMgr.StandsFor dep.2 key ∧ ∃ j ∈ last key, j.state = .complete ∧ j.exitStatus = 0
  | _ => True

/-- A job that the step starts has its dependencies fulfilled: the last obituary of a job in
an `afterok` clause has status zero, that of a job in an `afternotok` clause another. -/
def HonoursDependencies (s : Server) (exit : String → Option Int) (l : Env × Step) : Prop :=
  ∀ id, s.Starting l id → ∀ j ∈ s.job id, ∀ dep ∈ dependencies j.dependList,
    (dep.1 = "afterok" → ∃ key, s.jobMgr.StandsFor dep.2 key ∧ exit key = some 0) ∧
    (dep.1 = "afternotok" → ∃ key, s.jobMgr.StandsFor dep.2 key ∧ ∃ status ∈ exit key, status ≠ 0)

/-- What one step needs for the dependencies of the job it starts. -/
theorem EndsKnown.honours (known : s.EndsKnown ends) {taken : Step}
    (keeps : s.KeepsDependencies ends.last env taken) :
    s.HonoursDependencies ends.exit (env, taken) := by
  intro id starting j held dep listed
  obtain ⟨given, dest, j', rfl, found, met⟩ := starting.met
  obtain rfl : j' = j := Option.some.inj ((job_of_getJob found).symm.trans held)
  have verdict := met_of_checkDependencies met listed
  obtain ⟨type, named⟩ := dep
  constructor
  · rintro rfl
    simp only [dependency] at verdict
    split at verdict
    case h_1 missing =>
      obtain ⟨key, names, a, left, complete, zero⟩ := keeps _ found _ listed rfl missing
      refine ⟨key, names, ?_⟩
      rw [known.gone key a (JobManager.lookup_of_getJob_none missing names) left complete, zero]
    case h_2 key a present =>
      split_ifs at verdict with unfinished failed
      refine ⟨key, JobManager.stands_of_getJob present, ?_⟩
      rw [known.held key a (job_of_getJob present) (not_not.mp unfinished), not_not.mp failed]
  · rintro rfl
    simp only [dependency] at verdict
    split at verdict
    · cases verdict
    case h_2 key a present =>
      split_ifs at verdict with unmet
      obtain ⟨complete, failed⟩ := not_or.mp unmet
      refine ⟨key, JobManager.stands_of_getJob present, a.exitStatus, ?_, failed⟩
      exact known.held key a (job_of_getJob present) (not_not.mp complete)

end Server

/-- In every run from the empty server in which the jobs of `afterok` clauses are kept, or
leave after they have ended well, each job starts only after its dependencies. -/
theorem dependencies_honoured (name : String) (backend : Backend) (steps : List (Env × Step))
    (keeps : Along (watched Server.next Server.noteEnds)
      (fun w l => w.1.KeepsDependencies w.2.last l.1 l.2) (Server.new name { backend }, {}) steps) :
    Along (watched Server.next Server.noteEnds)
      (fun w l => w.1.HonoursDependencies w.2.exit l) (Server.new name { backend }, {}) steps := by
  refine keeps.entails (I := fun w => w.1.EndsKnown w.2) (fun _ _ known _ => known.next)
    (fun _ _ known keeps => known.honours keeps) ⟨?_, ?_⟩
  · intro id j found
    cases found
  · intro id j _ left
    cases left

/-- The server and what it knows about ended jobs, from the empty server. -/
def withEnds (steps : List (Env × Step)) : Server × Ends :=
  steps.foldl (watched Server.next Server.noteEnds) (Server.new "server" {}, {})

/-- A job, and one that has to wait for it to end well. -/
def dependentJobs : List Request :=
  [.manager (.createQueue "batch" []), .manager (.createNode "n1" []),
    .queueJob "alice@host" "batch" [], .commit "0.server",
    .queueJob "alice@host" "batch" [{ name := "depend", value := "afterok:0.server" }],
    .commit "1.server"]

/-- The first job ends well and is purged before the second starts. -/
def purgedRun : List (Env × Step) :=
  atOnce (dependentJobs ++ [.runJob "0.server" "n1", .jobObit "n1" true "0.server" 0 []]) ++
    [({ now := Time.ofUnix 1000000 }, .completedJobCleanup)]

theorem dependencies_honoured_after_purge :
    let start : Env × Step := ({ now := Time.ofUnix 1000000 }, .request (.runJob "1.server" "n1"))
    (withEnds purgedRun).1.job "0.server" = none ∧
      (withEnds purgedRun).1.Starting start "1.server" ∧
      Along (watched Server.next Server.noteEnds) (fun w l => w.1.HonoursDependencies w.2.exit l)
        (Server.new "server" {}, {}) (purgedRun ++ [start]) := by
  intro start
  have gone : ((withEnds purgedRun).1.job "0.server").isNone = true := by decide +kernel
  have started : (withEnds purgedRun).1.running "1.server" = false ∧
      ((withEnds purgedRun).1.next start).running "1.server" = true := by decide +kernel
  have free : ∀ found ∈ (withEnds (atOnce dependentJobs)).1.getJob { now := 1 } "0.server",
      dependencies found.2.dependList = [] := by decide +kernel
  have named : ∀ found ∈ (withEnds purgedRun).1.getJob start.1 "1.server",
      ∀ dep ∈ dependencies found.2.dependList,
        (withEnds purgedRun).1.jobMgr.StandsFor dep.2 "0.server" := by
    decide +kernel
  have left : ∃ j ∈ (withEnds purgedRun).2.last "0.server",
      j.state = .complete ∧ j.exitStatus = 0 := by
    decide +kernel
  refine ⟨Option.isNone_iff_eq_none.mp gone, started,
    dependencies_honoured "server" .file _ (Along.append.mpr ⟨?_, ?_, trivial⟩)⟩
  · refine ⟨trivial, trivial, trivial, trivial, trivial, trivial, ?_, trivial, trivial, trivial⟩
    intro found looked dep listed
    rw [free found looked] at listed
    cases listed
  · exact fun found looked dep listed _ _ => ⟨"0.server", named found looked dep listed, left⟩

/-- The first job is deleted before it has run. -/
def deletedRun : List (Env × Step) := atOnce (dependentJobs ++ [.deleteJob "0.server"])

/-- A job starts although the job it depends on never ended. -/
theorem deleted_dependency_counts_as_met :
    let start : Env × Step := ({ now := 1 }, .request (.runJob "1.server" "n1"))
    (withEnds deletedRun).1.Starting start "1.server" ∧
      (withEnds deletedRun).2.exit "0.server" = none ∧
      ¬ (withEnds deletedRun).1.HonoursDependencies (withEnds deletedRun).2.exit start := by
  intro start
  have started : (withEnds deletedRun).1.running "1.server" = false ∧
      ((withEnds deletedRun).1.next start).running "1.server" = true := by decide +kernel
  have silent : (withEnds deletedRun).2.exit "0.server" = none := by decide +kernel
  refine ⟨started, silent, fun honours => ?_⟩
  have facts : ((withEnds deletedRun).1.job "1.server").any
      (fun j => dependencies j.dependList = [("afterok", "0.server")]) = true := by decide +kernel
  obtain ⟨j, found, listed⟩ := (Option.any_eq_true _ _).mp facts
  obtain ⟨key, named, zero⟩ := (honours "1.server" started j found ("afterok", "0.server")
    (by simp [of_decide_eq_true listed])).1 rfl
  rcases named with rfl | ⟨plain, -⟩
  · rw [show Text.trimSpace "0.server" = "0.server" by decide, silent] at zero
    cases zero
  · exact absurd plain (by decide)

end OpenTorque.Pbs
