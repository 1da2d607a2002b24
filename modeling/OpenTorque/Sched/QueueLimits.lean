import OpenTorque.Sched.World
import OpenTorque.Server.Limits

/-! The limits of a queue on its running jobs. The server tests them when a job enters
the queue and the scheduler not at all, so they hold where every `RunJob` of a cycle
happens to come while the queue of its job is below them. -/
namespace OpenTorque.Sched
open Pbs Transition

/-- The events of the server and the scheduler, and moves between queues. -/
inductive Action (F : Type) where
  | event (e : Event F)
  | move (env : Env) (given dest : String)

section Runs
variable {F : Type} [GoFloat F] {w : World F}

def World.act (w : World F) : Action F → World F
  | .event e => w.step e
  | .move env given dest => { w with server := (w.server.handle env (.moveJob given dest)).server }

/-- The steps that an action makes the server take. -/
def World.actSteps (w : World F) : Action F → List (Env × Step)
  | .event e => w.serverSteps e
  | .move env given dest => [(env, .request (.moveJob given dest))]

theorem World.act_server (w : World F) (a : Action F) :
    (w.act a).server = (w.actSteps a).foldl Server.next w.server := by
  cases a with
  | event e => exact w.step_server e
  | move => rfl

/-- A job that the action starts finds its queue below the limits. -/
def World.LeavesQueueRoom (w : World F) (a : Action F) : Prop :=
  ∀ l ∈ w.actSteps a, w.server.LeavesQueueRoom l

instance (w : World F) (a : Action F) : Decidable (w.LeavesQueueRoom a) :=
  inferInstanceAs (Decidable (∀ l ∈ _, _))

/-- An action is at most one request, and neither a command of `qmgr` nor a `ModifyJob`. -/
theorem World.actSteps_cases (w : World F) (a : Action F) :
    w.actSteps a = [] ∨ ∃ env r, w.actSteps a = [(env, .request r)] ∧
      (∀ command, r ≠ .manager command) ∧ ∀ given attrs, r ≠ .modifyJob given attrs := by
  cases a with
  | move env given dest => exact .inr ⟨env, _, rfl, by simp, by simp⟩
  | event e =>
    cases e with
    | begin cfg limited v usage =>
      simp only [actSteps, serverSteps]
      split
      · exact .inr ⟨_, _, rfl, by simp, by simp⟩
      · exact .inl rfl
    | turn fuel =>
      simp only [actSteps, serverSteps]
      cases asked : w.session.bind (·.request fuel) with
      | none => exact .inl rfl
      | some request =>
        obtain ⟨c, -, sent⟩ := Option.bind_eq_some_iff.mp asked
        obtain ⟨j, node, run⟩ := c.request_runJob sent
        exact .inr ⟨_, _, rfl, by simp [run, runRequest], by simp [run, runRequest]⟩
    | submit env part =>
      refine .inr ⟨env, _, rfl, ?_, ?_⟩ <;> cases part <;> simp [Submission.request]
    | complete env obituary =>
      refine .inr ⟨env, _, rfl, ?_, ?_⟩ <;> simp [Completion.request]

theorem World.act_withinQueueLimits (a : Action F) (within : w.server.WithinQueueLimits)
    (room : w.LeavesQueueRoom a) : (w.act a).server.WithinQueueLimits := by
  rw [w.act_server a]
  rcases w.actSteps_cases a with silent | ⟨env, r, asked, unmanaged, unmodified⟩
  · rw [silent]
    exact within
  · have met := room (env, .request r) (by simp [asked])
    rw [asked]
    exact within.next (fun command same => unmanaged command (Step.request.inj same))
      (fun given attrs same => unmodified given attrs (Step.request.inj same)) met

/-- In every run of submissions, cycles, moves and completions in which the jobs that are
started find room in their queues, the queues keep to their limits. -/
theorem queue_limits_kept (w : World F) (within : w.server.WithinQueueLimits) (actions : List (Action F))
    (room : Along World.act World.LeavesQueueRoom w actions) :
    (actions.foldl World.act w).server.WithinQueueLimits :=
  room.invariant (I := fun w => w.server.WithinQueueLimits)
    (fun _ a within met => World.act_withinQueueLimits a within met) within

end Runs

/-- One node of four processors, and a queue that allows one running job. -/
def oneRunning : World Unit where
  server := fromEmpty (atOnce [.manager (.createQueue "batch" [{ name := "max_running", value := "1" }]),
    .manager (.createNode "n1" [{ name := "np", value := "4" }])] ++ [reports "n1" ["state=free"]])

def submitted (given : String) : List (Action Unit) :=
  [.event (.submit { now := 1 } (.queueJob "alice@host" "batch" [])),
    .event (.submit { now := 1 } (.commit given))]

def cycleOf (turns : Nat) : List (Action Unit) :=
  .event (.begin {} false (.at 2) ∅) :: List.replicate turns (.event (.turn 1))

/-- A job runs and ends before the next one is submitted. -/
def oneByOne : List (Action Unit) :=
  submitted "0.server" ++ cycleOf 2 ++
    [.event (.complete { now := 3 } ⟨"mom", true, "0.server", 0, []⟩)] ++
  submitted "1.server" ++ cycleOf 2

theorem queue_limits_kept_one_by_one :
    (oneByOne.foldl World.act oneRunning).server.jobMgr.countByStateInQueue "batch" [.running] = 1 ∧
      (oneByOne.foldl World.act oneRunning).server.WithinQueueLimits :=
  ⟨by decide +kernel, queue_limits_kept oneRunning (.of_no_jobs (by decide +kernel)) oneByOne
    (by decide +kernel)⟩

/-- Two jobs are in the queue when a cycle begins. -/
def bothQueued : List (Action Unit) := submitted "0.server" ++ submitted "1.server" ++ cycleOf 3

/-- The cycle starts both jobs, though the queue allows one. -/
theorem cycle_passes_queue_limit :
    oneRunning.server.WithinQueueLimits ∧
      ¬ (bothQueued.foldl World.act oneRunning).server.WithinQueueLimits := by
  refine ⟨.of_no_jobs (by decide +kernel), fun within => ?_⟩
  have passed : ((bothQueued.foldl World.act oneRunning).server.queueMgr.lookup "batch").all
      (fun q => q.number .maxRun = 1) = true ∧
      ((bothQueued.foldl World.act oneRunning).server.queueMgr.lookup "batch").isSome = true ∧
      (bothQueued.foldl World.act oneRunning).server.jobMgr.countByStateInQueue "batch" [.running] = 2 := by
    decide +kernel
  obtain ⟨limit, present, count⟩ := passed
  obtain ⟨q, found⟩ := Option.isSome_iff_exists.mp present
  simp only [found, Option.all_some, decide_eq_true_eq] at limit
  have bounded := within.total "batch" q found (by omega)
  omega

end OpenTorque.Sched
