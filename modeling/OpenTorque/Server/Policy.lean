import OpenTorque.Server.Frame

/-! What the queues are apart from their counters. Only the queue commands of `qmgr`
change it. -/
namespace OpenTorque.Pbs

namespace Server
variable {s t : Server} {env : Env} {id given name : String} {j : Job}

def policy (s : Server) (name : String) : Option Queue := (s.queueMgr.lookup name).map Queue.policy

theorem policy_onQueue {change : Queue → Queue} (keeps : ∀ q, (change q).policy = q.policy) :
    (s.onQueue name change).policy = s.policy := by
  funext x
  rw [policy, policy, onQueues_queueMgr, QueueManager.onQueue]
  cases found : s.queueMgr.lookup name with
  | none => rfl
  | some q =>
    by_cases same : x = name
    · rw [same, AList.lookup_insert, found, Option.map_some, Option.map_some, keeps]
    · rw [AList.lookup_insert_ne same]

section Updates
variable (s : Server)

@[simp] theorem policy_onJobs : (s.onJobs change).policy = s.policy := rfl
@[simp] theorem policy_onNodes : (s.onNodes change).policy = s.policy := rfl
@[simp] theorem policy_onStore : (s.onStore change).policy = s.policy := rfl
@[simp] theorem policy_onConfig : (s.onConfig change).policy = s.policy := rfl
@[simp] theorem policy_spawn : (s.spawn tasks).policy = s.policy := rfl
@[simp] theorem policy_detach : (s.detach name).policy = s.policy := rfl
@[simp] theorem policy_endDispatch : (s.endDispatch d).policy = s.policy := rfl

@[simp] theorem policy_incrJobCount :
    (s.onQueue name (·.incrJobCount state)).policy = s.policy := policy_onQueue fun _ => rfl

@[simp] theorem policy_decrJobCount :
    (s.onQueue name (·.decrJobCount state)).policy = s.policy := policy_onQueue fun _ => rfl

@[simp] theorem policy_transferJobState :
    (s.onQueue name (·.transferJobState was is)).policy = s.policy := policy_onQueue fun _ => rfl

@[simp] theorem policy_refreshQueueCounts : (s.refreshQueueCounts name).policy = s.policy :=
  policy_onQueue fun _ => rfl

end Updates

section Parts
variable (s : Server)

@[simp] theorem policy_assignOn (names : List String) (slots : Int) :
    (s.assignOn names id slots).policy = s.policy := view_foldl names fun _ _ => rfl

@[simp] theorem policy_start (names : List String) (slots port : Int) :
    (s.start env id j names slots port).policy = s.policy := by simp [start]

theorem policy_aside : Aside policy :=
  ⟨fun _ _ => rfl, fun _ _ => rfl, fun s _ _ => policy_incrJobCount s⟩

theorem policy_runOnNode (n : Node) : (s.runOnNode env id j name n).policy = s.policy := by
  simp only [runOnNode, runJobMulti]
  split_ifs <;> simp

end Parts

theorem policy_path (path : Path env (fun _ => True) True s t) : t.policy = s.policy := by
  induction path with
  | refl => rfl
  | tail _ edit same =>
    refine Eq.trans ?_ same
    cases edit with
    | recount _ _ blind => exact policy_onQueue blind
    | count => exact policy_incrJobCount _
    | _ => rfl

/-- No request but a command of `qmgr` changes a queue beyond its counters. -/
theorem policy_handle (r : Request) (other : ∀ command, r ≠ .manager command) :
    (s.handle env r).server.policy = s.policy := by
  cases r with
  | manager command => exact absurd rfl (other command)
  | queueJob =>
    simp only [handle, handleQueueJob]
    split
    · rfl
    · split_ifs <;> rfl
  | jobScript =>
    simp only [handle, handleJobScript]
    split
    · rfl
    · split_ifs
      · exact policy_aside.commit
      · rfl
  | commit =>
    simp only [handle, handleCommit]
    split
    · rfl
    · exact policy_aside.commit
  | deleteJob =>
    simp only [handle, handleDeleteJob]
    split
    · rfl
    · exact policy_path (.delete trivial)
  | holdJob =>
    simp only [handle, handleHoldJob]
    split
    · rfl
    · split_ifs
      · exact policy_transferJobState _
      · rfl
      · rfl
  | releaseJob =>
    simp only [handle, handleReleaseJob]
    split
    · rfl
    · split_ifs
      · exact policy_transferJobState _
      · rfl
  | modifyJob =>
    simp only [handle, handleModifyJob]
    split <;> rfl
  | moveJob =>
    simp only [handle, handleMoveJob]
    split
    · rfl
    · split
      · rfl
      split
      · rfl
      split
      · rfl
      · exact (policy_incrJobCount _).trans (policy_decrJobCount _)
  | runJob =>
    simp only [handle, handleRunJob]
    split
    · rfl
    split
    · rfl
    split
    · rfl
    split
    · rfl
    split
    · rfl
    · rfl
    split
    · rfl
    split
    · rfl
    · exact policy_runOnNode ..
  | rerunJob =>
    simp only [handle, handleRerunJob]
    split
    · rfl
    case h_2 found =>
      split_ifs
      · exact policy_path (.head (.release trivial) (Path.requeue trivial (mem_of_getJob found)))
      · exact policy_path (.requeue trivial (mem_of_getJob found))
      · rfl
  | orderJob =>
    simp only [handle, handleOrderJob]
    split
    · split_ifs <;> rfl
    · rfl
  | jobObit =>
    simp only [handle, handleJobObit]
    split
    · rfl
    · split
      · rfl
      case h_2 found => exact policy_path (.finish trivial (mem_of_getJob found))
  | statusQueue =>
    simp only [handle, handleStatusQueue]
    split
    · rfl
    · exact view_foldl _ fun t name => policy_refreshQueueCounts t
  | rdytoCommit | selectJobs => rfl
  | lookupJob | locateJob | statusNode =>
    simp only [handle, handleLookup, handleLocateJob, handleStatusNode]
    split <;> rfl
  | checkpointJob | statusJob =>
    simp only [handle, handleCheckpointJob, handleStatusJob]
    split
    · rfl
    · split <;> rfl

/-- No step but a command of `qmgr` changes a queue beyond its counters. -/
theorem policy_step {step : Step} (other : ∀ command, step ≠ .request (.manager command)) :
    (s.step env step).policy = s.policy := by
  cases step with
  | request r => exact policy_handle r fun command same => other command (same ▸ rfl)
  | authenticate => rfl
  | statusMessage msg =>
    simp only [Server.step, handleISMessage, policy_onNodes]
    split
    · rfl
    · rw [tryAutoRegisterNode]
      split <;> rfl
  | dispatchDone d =>
    simp only [Server.step]
    split_ifs
    · rw [dispatchDone]
      split <;> rfl
    · rfl
  | dispatchFailed d =>
    simp only [Server.step]
    split_ifs
    · rw [dispatchFailed, undoJobDispatch]
      split
      · rfl
      · simp only [policy_transferJobState]
        split_ifs <;> rfl
    · rfl
  | checkNodes => exact policy_path (.foldl _ fun _ _ _ => .checkNode fun _ => trivial)
  | promoteWaitingJobs => exact policy_path (.foldl _ fun _ _ _ => .promote trivial)
  | completedJobCleanup => exact policy_path (.foldl _ fun _ _ _ => .purge trivial)
  | reconcile => exact policy_path (.foldl _ fun _ _ _ => .reconcile trivial)

end Server

end OpenTorque.Pbs
