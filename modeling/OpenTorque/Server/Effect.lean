import OpenTorque.Server.Step

/-! What one step of the server can do to its state, case by case. The counters that
the queues keep are left open; every invariant of the server is derived from here. -/
namespace OpenTorque.Pbs

inductive Effect (s : Server) (env : Env) : Step → Server → Prop where
  | unchanged : Effect s env step s
  | recounted (change : QueueManager → QueueManager) :
      Effect s env (.request (.statusQueue name)) (s.onQueues change)
  | numbered : Effect s env (.request (.queueJob user dest attrs)) (s.onJobs (·.advance))
  | submitted (present : queue ∈ s.queueMgr) :
      Effect s env (.request (.queueJob user dest attrs))
        ((s.onJobs (·.advance)).onJobs
          (·.addJob s.jobMgr.formatJobID (s.submittedJob env user queue attrs)))
  | scripted (found : s.getJob env given = some (key, j)) :
      Effect s env (.request (.jobScript given data false))
        ((s.putJob key (j.setScript data)).onStore (·.saveJobScript given data))
  | scriptCommitted (found : s.getJob env given = some (key, j)) :
      Effect s env (.request (.jobScript given data true))
        (((s.putJob key (j.setScript data)).onStore (·.saveJobScript given data)).commit env
          given key (j.setScript data) .ok).server
  | committed (found : s.getJob env given = some (key, j)) :
      Effect s env (.request (.commit given))
        (s.commit env given key j (.jobID replyChoiceCommit given)).server
  | deleted (found : s.getJob env given = some (key, j)) :
      Effect s env (.request (.deleteJob given)) (s.delete env given j)
  | held (change : QueueManager → QueueManager) (found : s.getJob env given = some (key, j))
      (idle : j.state = .queued ∨ j.state = .waiting) :
      Effect s env (.request (.holdJob given))
        ((s.putJob key (j.setState env.now .held)).onQueues change)
  | released (change : QueueManager → QueueManager) (found : s.getJob env given = some (key, j))
      (held : j.state = .held) :
      Effect s env (.request (.releaseJob given))
        ((s.putJob key ((j.setHold "").setState env.now .queued)).onQueues change)
  | cleared (found : s.getJob env given = some (key, j)) (other : j.state ≠ .held) :
      Effect s env (.request (.releaseJob given)) (s.putJob key (j.setHold ""))
  | modified (found : s.getJob env given = some (key, j)) :
      Effect s env (.request (.modifyJob given attrs))
        ((s.putJob key (j.applyJobAttrs key env.now attrs)).saveJob key
          (j.applyJobAttrs key env.now attrs))
  | moved (change : QueueManager → QueueManager) (found : s.getJob env given = some (key, j))
      (idle : j.state ∉ [.running, .exiting, .complete, .provisioning]) (present : queue ∈ s.queueMgr) :
      Effect s env (.request (.moveJob given dest))
        (((s.putJob key (j.setQueue queue)).onQueues change).saveJob key
          (j.setQueue queue))
  | rerun (found : s.getJob env given = some (key, j)) (running : j.state = .running)
      (placed : j.execHost ≠ "") :
      Effect s env (.request (.rerunJob given))
        ((s.onNode (Text.before '/' j.execHost) (·.releaseJob key j.requestedCPUs)).requeue env key j)
  | requeued (found : s.getJob env given = some (key, j))
      (unplaced : j.state = .running ∧ j.execHost = "" ∨ j.state = .queued) :
      Effect s env (.request (.rerunJob given)) (s.requeue env key j)
  | ordered (found₁ : s.getJob env given₁ = some (key₁, j₁))
      (found₂ : s.getJob env given₂ = some (key₂, j₂)) (distinct : key₁ ≠ key₂) :
      Effect s env (.request (.orderJob given₁ given₂))
        ((((s.putJob key₁ (j₁.setCreateTime j₂.createTime)).putJob key₂
          (j₂.setCreateTime j₁.createTime)).saveJob key₁ (j₁.setCreateTime j₂.createTime)).saveJob
          key₂ (j₂.setCreateTime j₁.createTime))
  | failedDependency (found : s.getJob env given = some (key, j))
      (ready : j.state = .queued ∨ j.state = .provisioning) :
      Effect s env (.request (.runJob given dest)) (s.putJob key (j.setComment comment))
  | started (found : s.getJob env given = some (key, j))
      (ready : j.state = .queued ∨ j.state = .provisioning)
      (active : s.haEnabled = true → s.haActive = true) (met : s.checkDependencies env j = .met)
      (present : s.nodeMgr.lookup (Text.before '/' dest) = some n) (single : j.nodeRequest.1 ≤ 1) :
      Effect s env (.request (.runJob given dest))
        (s.start env key j [Text.before '/' dest] j.requestedCPUs n.momPort)
  | startedMulti (found : s.getJob env given = some (key, j))
      (ready : j.state = .queued ∨ j.state = .provisioning)
      (active : s.haEnabled = true → s.haActive = true) (met : s.checkDependencies env j = .met)
      (present : s.nodeMgr.lookup (Text.before '/' dest) = some n) (several : 1 < j.nodeRequest.1)
      (enough : j.nodeRequest.1 ≤
        (s.selectNodes env (Text.before '/' dest) j.nodeRequest.1 j.nodeRequest.2).length) :
      Effect s env (.request (.runJob given dest))
        (s.start env key (Server.sized j j.nodeRequest.1 j.nodeRequest.2)
          (s.selectNodes env (Text.before '/' dest) j.nodeRequest.1 j.nodeRequest.2)
          j.nodeRequest.2 n.momPort)
  | ended (found : s.getJob env given = some (key, j)) :
      Effect s env (.request (.jobObit remote privileged given status attrs))
        (s.finish env given key j (Server.obituary j env status attrs))
  | managed (done : s.manage env command = some s') :
      Effect s env (.request (.manager command)) s'
  | authenticated : Effect s env (.authenticate remote user)
      { s with authMap := s.authMap.insert remote user }
  | heard : Effect s env (.statusMessage msg) (s.handleISMessage env msg)
  | dispatched (pending : d ∈ s.dispatches) :
      Effect s env (.dispatchDone d session) (s.dispatchDone d session)
  | undone (pending : d ∈ s.dispatches) :
      Effect s env (.dispatchFailed d) (s.dispatchFailed env d)
  | nodesChecked : Effect s env .checkNodes (s.checkNodes env)
  | promoted : Effect s env .promoteWaitingJobs (s.promoteWaitingJobs env)
  | cleaned : Effect s env .completedJobCleanup (s.completedJobCleanup env)
  | reconciled : Effect s env (.reconcile answer) (s.reconcileRunningJobsWithMOMs env answer)

namespace Server
variable (s : Server) (env : Env)

theorem handleQueueJob_effect : Effect s env (.request (.queueJob user dest attrs))
    (s.handleQueueJob env user dest attrs).server := by
  unfold handleQueueJob
  generalize (if dest = "" then _ else _ : Option String) = target
  cases target with
  | none => exact .unchanged
  | some queue =>
    simp only
    by_cases present : queue ∈ s.queueMgr
    · simp only [present, not_true_eq_false, if_false]
      split
      · exact .numbered
      · split
        · exact .numbered
        · exact .submitted present
    · simp only [present, not_false_eq_true, if_true]
      exact .unchanged

theorem handleJobScript_effect : Effect s env (.request (.jobScript given data autoCommit))
    (s.handleJobScript env given data autoCommit).server := by
  unfold handleJobScript
  split
  · exact .unchanged
  case h_2 found =>
    cases autoCommit with
    | false => exact .scripted found
    | true => exact .scriptCommitted found

theorem handleCommit_effect :
    Effect s env (.request (.commit given)) (s.handleCommit env given).server := by
  unfold handleCommit
  split
  · exact .unchanged
  case h_2 found => exact .committed found

theorem handleDeleteJob_effect :
    Effect s env (.request (.deleteJob given)) (s.handleDeleteJob env given).server := by
  unfold handleDeleteJob
  split
  · exact .unchanged
  case h_2 found => exact .deleted found

theorem handleHoldJob_effect :
    Effect s env (.request (.holdJob given)) (s.handleHoldJob env given).server := by
  unfold handleHoldJob
  split
  · exact .unchanged
  case h_2 found =>
    split_ifs with queued waiting
    · exact .held (·.onQueue _ _) found (.inl queued)
    · exact .held (fun m => m) found (.inr waiting)
    · exact .unchanged

theorem handleReleaseJob_effect :
    Effect s env (.request (.releaseJob given)) (s.handleReleaseJob env given).server := by
  unfold handleReleaseJob
  split
  · exact .unchanged
  case h_2 found =>
    simp only
    split_ifs with held
    · exact .released (·.onQueue _ _) found held
    · exact .cleared found held

theorem handleModifyJob_effect :
    Effect s env (.request (.modifyJob given attrs)) (s.handleModifyJob env given attrs).server := by
  unfold handleModifyJob
  split
  · exact .unchanged
  case h_2 found => exact .modified found

theorem handleMoveJob_effect :
    Effect s env (.request (.moveJob given dest)) (s.handleMoveJob env given dest).server := by
  unfold handleMoveJob
  split
  · exact .unchanged
  case h_2 j found =>
    simp only
    by_cases present : Text.before '@' dest ∈ s.queueMgr
    · simp only [present, not_true_eq_false, if_false]
      split_ifs with settled here
      · exact .unchanged
      · exact .unchanged
      · exact .moved (fun m => (m.onQueue j.queue (·.decrJobCount j.state)).onQueue (Text.before '@' dest)
          (·.incrJobCount j.state)) found settled present
    · simp only [present, not_false_eq_true, if_true]
      exact .unchanged

theorem handleRerunJob_effect :
    Effect s env (.request (.rerunJob given)) (s.handleRerunJob env given).server := by
  unfold handleRerunJob
  split
  · exact .unchanged
  case h_2 j found =>
    split_ifs with placed idle
    · exact .rerun found placed.1 placed.2
    · refine .requeued found (idle.imp_left fun running => ⟨running, ?_⟩)
      by_contra host
      exact placed ⟨running, host⟩
    · exact .unchanged

theorem handleOrderJob_effect : Effect s env (.request (.orderJob given₁ given₂))
    (s.handleOrderJob env given₁ given₂).server := by
  unfold handleOrderJob
  split
  case h_1 found₁ found₂ =>
    split_ifs with same
    · exact .unchanged
    · exact .ordered found₁ found₂ same
  case h_2 => exact .unchanged

theorem handleRunJob_effect :
    Effect s env (.request (.runJob given dest)) (s.handleRunJob env given dest).server := by
  unfold handleRunJob
  split
  · exact .unchanged
  rename_i standby
  have active : s.haEnabled = true → s.haActive = true := by simpa using standby
  split
  · exact .unchanged
  case h_2 key j found =>
    split
    · exact .unchanged
    rename_i unsettled
    have ready : j.state = .queued ∨ j.state = .provisioning := by
      by_contra other
      exact unsettled (not_or.mp other)
    split
    · exact .unchanged
    split
    · exact .unchanged
    · exact .failedDependency found ready
    case h_3 met =>
      split
      · exact .unchanged
      simp only
      split
      · exact .unchanged
      case h_2 n present =>
        simp only [runOnNode]
        split_ifs with several
        · simp only [runJobMulti]
          split_ifs with short
          · exact .unchanged
          · exact .startedMulti found ready active met present several (not_lt.mp short)
        · exact .started found ready active met present (not_lt.mp several)

theorem handleJobObit_effect :
    Effect s env (.request (.jobObit remote privileged given status attrs))
      (s.handleJobObit env remote privileged given status attrs).server := by
  unfold handleJobObit
  split
  · exact .unchanged
  · split
    · exact .unchanged
    case h_2 found => exact .ended found

theorem refreshQueueCounts_foldl (names : List String) :
    ∃ change, names.foldl refreshQueueCounts s = s.onQueues change := by
  induction names generalizing s with
  | nil => exact ⟨fun m => m, rfl⟩
  | cons name names ih =>
    obtain ⟨change, rest⟩ := ih (s.refreshQueueCounts name)
    exact ⟨fun _ => change (s.refreshQueueCounts name).queueMgr, rest⟩

theorem handle_effect (r : Request) : Effect s env (.request r) (s.handle env r).server := by
  cases r with
  | queueJob => exact s.handleQueueJob_effect env
  | jobScript => exact s.handleJobScript_effect env
  | commit => exact s.handleCommit_effect env
  | deleteJob => exact s.handleDeleteJob_effect env
  | holdJob => exact s.handleHoldJob_effect env
  | releaseJob => exact s.handleReleaseJob_effect env
  | modifyJob => exact s.handleModifyJob_effect env
  | moveJob => exact s.handleMoveJob_effect env
  | runJob => exact s.handleRunJob_effect env
  | rerunJob => exact s.handleRerunJob_effect env
  | orderJob => exact s.handleOrderJob_effect env
  | jobObit => exact s.handleJobObit_effect env
  | rdytoCommit => exact .unchanged
  | selectJobs => exact .unchanged
  | lookupJob | locateJob =>
    simp only [handle, handleLookup, handleLocateJob]
    split <;> exact .unchanged
  | checkpointJob =>
    simp only [handle, handleCheckpointJob]
    split
    · exact .unchanged
    · split <;> exact .unchanged
  | statusJob given =>
    simp only [handle, handleStatusJob]
    split
    · exact .unchanged
    · split <;> exact .unchanged
  | statusQueue name =>
    simp only [handle, handleStatusQueue]
    split
    · exact .unchanged
    · obtain ⟨change, same⟩ := s.refreshQueueCounts_foldl
        (if name = "" then s.queueMgr.range (env.order .anyQueue) else [name])
      simp only [same]
      exact .recounted change
  | statusNode name =>
    simp only [handle, handleStatusNode]
    split <;> exact .unchanged
  | manager command =>
    simp only [handle, handleManager]
    split
    · exact .unchanged
    case h_2 done => exact .managed done

/-- Every step of the server has one of the effects listed above. -/
theorem step_effect (step : Step) : Effect s env step (s.step env step) := by
  cases step with
  | request r => exact s.handle_effect env r
  | authenticate => exact .authenticated
  | statusMessage => exact .heard
  | dispatchDone d =>
    simp only [Server.step]
    split_ifs with pending
    · exact .dispatched pending
    · exact .unchanged
  | dispatchFailed d =>
    simp only [Server.step]
    split_ifs with pending
    · exact .undone pending
    · exact .unchanged
  | checkNodes => exact .nodesChecked
  | promoteWaitingJobs => exact .promoted
  | completedJobCleanup => exact .cleaned
  | reconcile => exact .reconciled

end Server

end OpenTorque.Pbs
