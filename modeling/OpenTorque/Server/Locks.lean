import OpenTorque.Core.LockOrder
import OpenTorque.Core.Transition

/-! The mutexes of jobs, nodes and managers in the handlers and background tasks of the
server. A function is what it acquires and releases; the jobs and nodes that it meets are
its arguments, and what its conditions decide is left open. The mutexes of single queues and
of the configuration are left out. -/
namespace OpenTorque.Pbs
open LockOrder

inductive Mutex where
  | job (id : String)
  | node (name : String)
  | jobMgr
  | nodeMgr
  | queueMgr
  deriving DecidableEq, Repr

namespace Locks
open Code Mutex

abbrev Skeleton := Code Mutex

/-! ### The managers -/

/-- `GetJob`, `AllJobs`, `JobCount`, `StateCount` and `GetNextJobIDNum` -/
def readJobMgr : Skeleton := reading jobMgr skip

/-- `NextJobID`, `SetNextJobIDNum`, `AddJob`, `RemoveJob` and `UpdateJobState` -/
def writeJobMgr : Skeleton := writing jobMgr skip

/-- `JobsInQueue`, `CompletedJobs` and the functions that count jobs. -/
def countJobs (jobs : List String) : Skeleton :=
  reading jobMgr (each jobs fun j => reading (job j) skip)

/-- `GetNode` and `AllNodes` -/
def readNodeMgr : Skeleton := reading nodeMgr skip

/-- `AddNode` and `RemoveNode` -/
def writeNodeMgr : Skeleton := writing nodeMgr skip

def markNodeDown (n : String) : Skeleton :=
  reading nodeMgr skip ++ optional (writing (node n) skip)

/-- `GetQueue`, `AllQueues` and `DefaultQueue` -/
def readQueueMgr : Skeleton := reading queueMgr skip

/-- `AddQueue` and `RemoveQueue` -/
def writeQueueMgr : Skeleton := writing queueMgr skip

/-! ### Functions on one job or node -/

/-- `saveJob`, `jobRequestedCPUs`, `jobGenericReqs`, `submitHostOf`, `formatJobStatus`,
`sendDeleteToMOM` and the reading of a job for an accounting record. -/
def readJob (j : String) : Skeleton := reading (job j) skip

def writeJob (j : String) : Skeleton := writing (job j) skip

def jobNodeRequest (j : String) : Skeleton := readJob j ++ optional (readJob j)

def readNode (n : String) : Skeleton := reading (node n) skip

/-- `applyNodeAttrs`, and the sections that assign or release a job. -/
def writeNode (n : String) : Skeleton := writing (node n) skip

def saveNodes (nodes : List String) : Skeleton := readNodeMgr ++ each nodes readNode

/-- A job is released on the hosts that are known. -/
def releaseHosts (hosts : List String) : Skeleton :=
  loop (readNodeMgr ++ any hosts writeNode)

def releaseNodeResources (j : String) (hosts : List String) : Skeleton :=
  readJobMgr ++ optional (readJob j) ++ releaseHosts hosts

/-! ### Submission -/

def queueAllowsSubmitHost (j : String) : Skeleton := readQueueMgr ++ optional (readJob j)

def handleQueueJob (j : String) (jobs : List String) : Skeleton :=
  optional readQueueMgr ++ optional (readQueueMgr ++ writeJobMgr ++ optional (countJobs jobs) ++
    optional (queueAllowsSubmitHost j ++ optional writeJobMgr))

def admitToQueue (j : String) (jobs : List String) : Skeleton :=
  optional (countJobs jobs ++ countJobs jobs ++ countJobs jobs) ++ optional (countJobs jobs) ++
    optional (countJobs jobs) ++ optional (countJobs jobs) ++ optional (readJob j)

def routeJob (j : String) (jobs : List String) : Skeleton :=
  readQueueMgr ++ loop (readQueueMgr ++ optional (admitToQueue j jobs))

def finalizeRoute (j : String) (jobs : List String) : Skeleton :=
  routeJob j jobs ++
    optional (writeJob j ++ optional (readQueueMgr ++ optional (admitToQueue j jobs)))

def commitJobInstance (j : String) (jobs : List String) : Skeleton :=
  writeJob j ++ writeJobMgr ++ finalizeRoute j jobs ++
    optional (readJob j ++ optional writeJobMgr ++ readQueueMgr ++ readJob j ++
      optional (readJob j))

def processJobArray (j : String) (tasks jobs : List String) : Skeleton :=
  readJob j ++ optional (loop writeJobMgr ++ each tasks (commitJobInstance · jobs) ++
    loop writeJobMgr)

/-- The array is expanded, or else the job is committed; a rejected job is removed. -/
def submit (j : String) (tasks jobs : List String) : Skeleton :=
  processJobArray j tasks jobs ++ optional (commitJobInstance j jobs) ++ optional writeJobMgr

def handleJobScript (j : String) (tasks jobs : List String) : Skeleton :=
  readJobMgr ++ optional (writeJob j ++ optional (submit j tasks jobs))

def handleCommit (j : String) (tasks jobs : List String) : Skeleton :=
  readJobMgr ++ optional (submit j tasks jobs)

/-! ### Requests about one job -/

def handleDeleteJob (j : String) (hosts : List String) : Skeleton :=
  readJobMgr ++ optional (writeJob j ++ optional (readJob j) ++
    optional (readJob j ++ releaseNodeResources j hosts) ++ readQueueMgr ++ writeJobMgr ++
    writeJobMgr)

def handleHoldJob (j : String) : Skeleton :=
  readJobMgr ++ optional (writeJob j ++ optional readQueueMgr)

/-- The queue is looked up while the job is locked. -/
def handleReleaseJob (j : String) : Skeleton :=
  readJobMgr ++ optional (writing (job j) (optional readQueueMgr))

def handleModifyJob (j : String) : Skeleton := readJobMgr ++ optional (writeJob j ++ readJob j)

def handleMoveJob (j : String) : Skeleton :=
  readJobMgr ++ optional (readQueueMgr ++ optional (writeJob j ++
    optional (readQueueMgr ++ readJob j)))

def handleCheckpointJob (j : String) : Skeleton := readJobMgr ++ optional (readJob j)

/-- The first node of a running job is released while the job is locked. -/
def handleRerunJob (j : String) (host : Option String) : Skeleton :=
  readJobMgr ++ optional (readJob j ++
    writing (job j) (optional (readNodeMgr ++ any host.toList writeNode)) ++
    optional (readQueueMgr ++ readJob j))

/-- Both jobs are locked, the first one first. -/
def handleOrderJob (j₁ j₂ : String) : Skeleton :=
  readJobMgr ++ readJobMgr ++
    optional (writing (job j₁) (writing (job j₂) skip) ++ readJob j₁ ++ readJob j₂)

/-! ### Running a job -/

def enforceRunLimits (j : String) (jobs : List String) : Skeleton :=
  optional (countJobs jobs) ++
    optional (readJob j ++ optional (countJobs jobs) ++ optional (countJobs jobs))

def checkDependencies (j : String) (deps : List String) : Skeleton :=
  readJob j ++ loop (readJobMgr ++ any deps readJob) ++ optional (writeJob j)

def runJobMulti (j firstNode : String) (nodes : List String) : Skeleton :=
  readNodeMgr ++ each nodes readNode ++ optional (each (firstNode :: nodes) writeNode ++
    writeJob j ++ readQueueMgr ++ readJob j ++ optional (readJob j))

/-- The requested processors are read while the node is locked. -/
def runOnNode (j n : String) : Skeleton :=
  writing (node n) (readJob j) ++ writeJob j ++ readQueueMgr ++ readJob j ++ optional (readJob j)

def handleRunJob (j n : String) (deps jobs nodes : List String) : Skeleton :=
  readJobMgr ++ optional (readJob j ++ optional (enforceRunLimits j jobs ++
    optional (checkDependencies j deps ++ optional (readNodeMgr ++
      optional (jobNodeRequest j ++ either (runJobMulti j n nodes) (runOnNode j n))))))

/-- The requested processors are read while the node is locked. -/
def undoJobDispatch (j n : String) : Skeleton :=
  writeJob j ++ writing (node n) (readJob j) ++ readQueueMgr

def dispatchJobToMOM (j n : String) : Skeleton :=
  readNode n ++ either (undoJobDispatch j n)
    (readJob j ++ either (undoJobDispatch j n) (optional (writeJob j)))

/-! ### Messages of the MOMs -/

def resolveDependencies (jobs : List String) : Skeleton := readJobMgr ++ each jobs readJob

def handleJobObit (j : String) (hosts jobs : List String) : Skeleton :=
  readJobMgr ++ optional (writeJob j ++ optional (releaseNodeResources j hosts) ++
    readQueueMgr ++ readJob j ++ optional (readJob j) ++ resolveDependencies jobs)

def handleISMessage (n : String) (nodes : List String) : Skeleton :=
  readNodeMgr ++ optional (optional (writeNodeMgr ++ saveNodes nodes) ++ readNodeMgr) ++
    optional (writeNode n)

/-! ### Status and administration -/

def handleSelectJobs (jobs : List String) : Skeleton := readJobMgr ++ each jobs readJob

def handleStatusJob (jobs : List String) : Skeleton :=
  either (readJobMgr ++ any jobs readJob) (readJobMgr ++ each jobs readJob)

def handleStatusQueue (jobs : List String) : Skeleton :=
  either (readQueueMgr ++ optional (countJobs jobs)) (readQueueMgr ++ loop (countJobs jobs))

/-- The number of jobs, the seven states and the next number are read one by one. -/
def handleStatusServer (nodes : List String) : Skeleton :=
  loop readJobMgr ++ readNodeMgr ++ each nodes readNode

/-- The assigned jobs are read while the node is locked. -/
def formatNodeStatus (n : String) (assigned : List String) : Skeleton :=
  reading (node n) (loop (readJobMgr ++ any assigned readJob) ++
    loop (readJobMgr ++ any assigned readJob))

def handleStatusNode (nodes : List (String × List String)) : Skeleton :=
  either (readNodeMgr ++ any nodes fun n => formatNodeStatus n.1 n.2)
    (readNodeMgr ++ each nodes fun n => formatNodeStatus n.1 n.2)

def mgrCreateQueue : Skeleton := readQueueMgr ++ optional writeQueueMgr

def mgrCreateNode (n : String) (nodes : List String) : Skeleton :=
  writeNodeMgr ++ writeNode n ++ saveNodes nodes

def mgrDeleteNode (nodes : List String) : Skeleton := writeNodeMgr ++ optional (saveNodes nodes)

def mgrSetNode (n : String) (nodes : List String) : Skeleton :=
  readNodeMgr ++ optional (writeNode n ++ saveNodes nodes)

/-- `saveState`, which `Shutdown` calls. -/
def saveState (jobs nodes : List String) : Skeleton :=
  readJobMgr ++ readQueueMgr ++ saveNodes nodes ++ readJobMgr ++ each jobs readJob

/-! ### Background tasks -/

def promoteWaitingJobs (jobs : List String) : Skeleton :=
  readJobMgr ++ each jobs fun j => readJob j ++ optional writeJobMgr

/-- The node is locked again for each running job, while that job is locked. -/
def requeueNodeJobs (n : String) (assigned : List String) : Skeleton :=
  optional (readNodeMgr ++ optional (writeNode n ++ loop (readJobMgr ++ any assigned fun j =>
    readJob j ++ writing (job j) (optional (writeNode n)) ++
      optional (readQueueMgr ++ readJob j))))

def checkNodes (nodes : List (String × List String)) : Skeleton :=
  readNodeMgr ++ each nodes fun n =>
    readNode n.1 ++ optional (markNodeDown n.1 ++ requeueNodeJobs n.1 n.2)

def requeueRecoveredJob (j : String) (hosts : List String) : Skeleton :=
  readJob j ++ jobNodeRequest j ++ releaseHosts hosts ++ writeJob j ++ readQueueMgr ++ readJob j

def reconcileRunningJobsWithMOMs (jobs : List (String × List String)) : Skeleton :=
  readJobMgr ++ each jobs fun j => readJob j.1 ++ optional (readNodeMgr ++
    optional (any j.2 readNode ++ optional (requeueRecoveredJob j.1 j.2)))

def completedJobCleanup (jobs : List String) : Skeleton :=
  countJobs jobs ++ each jobs fun j => readJob j ++ optional (readQueueMgr ++ writeJobMgr)

def restoreRecoveredRunningJobs (jobs : List (String × List String)) : Skeleton :=
  readJobMgr ++ each jobs fun j => readJob j.1 ++ optional (jobNodeRequest j.1 ++
    releaseHosts j.2)

def recoverState (jobs : List (String × List String)) : Skeleton :=
  optional writeJobMgr ++ loop writeQueueMgr ++ loop writeNodeMgr ++
    loop (writeJobMgr ++ readQueueMgr) ++ restoreRecoveredRunningJobs jobs

end Locks

/-- The handlers and background tasks, with the jobs and nodes that they meet. -/
inductive Activity where
  /-- a handler that uses none of the mutexes: `Connect`, `JobCred`, `RdytoCommit`,
  `Disconnect` and those of the authentication -/
  | unlocked
  | queueJob (j : String) (jobs : List String)
  | jobScript (j : String) (tasks jobs : List String)
  | commit (j : String) (tasks jobs : List String)
  | deleteJob (j : String) (hosts : List String)
  | holdJob (j : String)
  | releaseJob (j : String)
  | modifyJob (j : String)
  | moveJob (j : String)
  /-- `SignalJob`, `LocateJob` and `MessJob` -/
  | lookupJob
  | checkpointJob (j : String)
  | rerunJob (j : String) (host : Option String)
  | orderJob (j₁ j₂ : String)
  | runJob (j n : String) (deps jobs nodes : List String)
  | dispatch (j n : String)
  | jobObit (j : String) (hosts jobs : List String)
  | isMessage (n : String) (nodes : List String)
  | selectJobs (jobs : List String)
  | statusJob (jobs : List String)
  | statusQueue (jobs : List String)
  | statusServer (nodes : List String)
  | statusNode (nodes : List (String × List String))
  | createQueue
  | deleteQueue
  /-- setting and unsetting attributes of a queue -/
  | setQueue
  | createNode (n : String) (nodes : List String)
  | deleteNode (nodes : List String)
  | setNode (n : String) (nodes : List String)
  /-- setting and unsetting attributes of the server -/
  | setServer
  | shutdown (jobs nodes : List String)
  | promoteWaitingJobs (jobs : List String)
  | checkNodes (nodes : List (String × List String))
  | reconcile (jobs : List (String × List String))
  | completedJobCleanup (jobs : List String)
  | start (jobs : List (String × List String))
  deriving DecidableEq, Repr

namespace Activity
open Locks Mutex

def code : Activity → Skeleton
  | unlocked => .skip
  | queueJob j jobs => handleQueueJob j jobs
  | jobScript j tasks jobs => handleJobScript j tasks jobs
  | commit j tasks jobs => handleCommit j tasks jobs
  | deleteJob j hosts => handleDeleteJob j hosts
  | holdJob j => handleHoldJob j
  | releaseJob j => handleReleaseJob j
  | modifyJob j => handleModifyJob j
  | moveJob j => handleMoveJob j
  | lookupJob => readJobMgr
  | checkpointJob j => handleCheckpointJob j
  | rerunJob j host => handleRerunJob j host
  | orderJob j₁ j₂ => handleOrderJob j₁ j₂
  | runJob j n deps jobs nodes => handleRunJob j n deps jobs nodes
  | dispatch j n => dispatchJobToMOM j n
  | jobObit j hosts jobs => handleJobObit j hosts jobs
  | isMessage n nodes => handleISMessage n nodes
  | selectJobs jobs => handleSelectJobs jobs
  | statusJob jobs => handleStatusJob jobs
  | statusQueue jobs => handleStatusQueue jobs
  | statusServer nodes => handleStatusServer nodes
  | statusNode nodes => handleStatusNode nodes
  | createQueue => mgrCreateQueue
  | deleteQueue => writeQueueMgr
  | setQueue => readQueueMgr
  | createNode n nodes => mgrCreateNode n nodes
  | deleteNode nodes => mgrDeleteNode nodes
  | setNode n nodes => mgrSetNode n nodes
  | setServer => readJobMgr
  | shutdown jobs nodes => saveState jobs nodes
  | promoteWaitingJobs jobs => Locks.promoteWaitingJobs jobs
  | checkNodes nodes => Locks.checkNodes nodes
  | reconcile jobs => reconcileRunningJobsWithMOMs jobs
  | completedJobCleanup jobs => Locks.completedJobCleanup jobs
  | start jobs => recoverState jobs

/-- The pairs of jobs and nodes of which the task locks the second while it holds the
first. -/
def nests : Activity → List (Mutex × Mutex)
  | rerunJob j host => host.toList.map fun n => (job j, node n)
  | checkNodes nodes => nodes.flatMap fun n => n.2.map fun j => (job j, node n.1)
  | orderJob j₁ j₂ => [(job j₁, job j₂)]
  | runJob j n .. => [(node n, job j)]
  | dispatch j n => [(node n, job j)]
  | statusNode nodes => nodes.flatMap fun n => n.2.map fun j => (node n.1, job j)
  | _ => []

/-- What a task may do: its own pairs, and pairs with a manager. -/
inductive Allowed (own : Mutex → Mutex → Prop) : Mode × Mutex → Mode × Mutex → Prop
  | own (pair : own a b) : Allowed own (m, a) (m', b)
  | jobOfMgr : Allowed own (.shared, jobMgr) (.shared, job j)
  | mgrOfNode : Allowed own (m, node n) (.shared, jobMgr)
  | nodeMgrOfJob : Allowed own (m, job j) (.shared, nodeMgr)
  | queueMgrOfJob : Allowed own (m, job j) (.shared, queueMgr)

variable {own : Mutex → Mutex → Prop} {held : List (Mode × Mutex)} {p q : Skeleton}

/-- With the mutexes held, the code acquires only what is allowed. -/
def Within (own : Mutex → Mutex → Prop) (held : List (Mode × Mutex)) (c : Skeleton) : Prop :=
  ∀ x ∈ c.nests held, Allowed own x.1 x.2

@[simp] theorem within_skip : Within own held .skip := by simp [Within]

@[simp] theorem within_append :
    Within own held (p ++ q) ↔ Within own held p ∧ Within own held q := by
  simp [Within, or_imp, forall_and]

@[simp] theorem within_either :
    Within own held (.either p q) ↔ Within own held p ∧ Within own held q := by
  simp [Within, or_imp, forall_and]

@[simp] theorem within_optional : Within own held (.optional p) ↔ Within own held p := Iff.rfl

@[simp] theorem within_loop : Within own held (.loop p) ↔ Within own held p := Iff.rfl

@[simp] theorem within_any {xs : List α} {code : α → Skeleton} :
    Within own held (.any xs code) ↔ ∀ x ∈ xs, Within own held (code x) := by
  simp only [Within, Code.nests_any, List.mem_flatMap]
  constructor
  · exact fun all x mem y nested => all y ⟨x, mem, nested⟩
  · rintro all y ⟨x, mem, nested⟩
    exact all x mem y nested

@[simp] theorem within_each {xs : List α} {code : α → Skeleton} :
    Within own held (.each xs code) ↔ ∀ x ∈ xs, Within own held (code x) := within_any

@[simp] theorem within_reading {l : Mutex} : Within own held (.reading l p) ↔
    (∀ h ∈ held, Allowed own h (.shared, l)) ∧ Within own ((.shared, l) :: held) p := by
  simp only [Within, Code.nests_reading, List.forall_mem_append, List.forall_mem_map]

@[simp] theorem within_writing {l : Mutex} : Within own held (.writing l p) ↔
    (∀ h ∈ held, Allowed own h (.exclusive, l)) ∧ Within own ((.exclusive, l) :: held) p := by
  simp only [Within, Code.nests_writing, List.forall_mem_append, List.forall_mem_map]

@[simp] theorem within_countJobs {jobs : List String} : Within own [] (countJobs jobs) := by
  simp [countJobs, Allowed.jobOfMgr]

theorem within_code (t : Activity) : Within (fun a b => (a, b) ∈ t.nests) [] t.code := by
  cases t with
  | releaseJob j =>
    simp [code, handleReleaseJob, readJobMgr, readQueueMgr, Allowed.queueMgrOfJob]
  | rerunJob j host =>
    have own : ∀ n, host = some n →
        Allowed (fun a b => (a, b) ∈ (rerunJob j host).nests) (.exclusive, job j)
          (.exclusive, node n) :=
      fun n found => .own (by simp [nests, found])
    simpa [code, handleRerunJob, readJobMgr, readQueueMgr, readNodeMgr, writeNode, readJob,
      Allowed.nodeMgrOfJob] using own
  | orderJob j₁ j₂ =>
    have own : Allowed (fun a b => (a, b) ∈ (orderJob j₁ j₂).nests) (.exclusive, job j₁)
        (.exclusive, job j₂) := .own (by simp [nests])
    simpa [code, handleOrderJob, readJobMgr, readJob] using own
  | runJob j n deps jobs nodes =>
    have own : Allowed (fun a b => (a, b) ∈ (runJob j n deps jobs nodes).nests)
        (.exclusive, node n) (.shared, job j) := .own (by simp [nests])
    simpa [code, handleRunJob, readJobMgr, readQueueMgr, readNodeMgr, writeNode, readJob,
      enforceRunLimits, checkDependencies, runJobMulti, runOnNode, readNode, writeJob,
      jobNodeRequest] using own
  | dispatch j n =>
    have own : Allowed (fun a b => (a, b) ∈ (dispatch j n).nests) (.exclusive, node n)
        (.shared, job j) := .own (by simp [nests])
    simpa [code, dispatchJobToMOM, undoJobDispatch, readQueueMgr, readJob, readNode, writeJob]
      using own
  | statusNode nodes =>
    have own : ∀ n assigned, (n, assigned) ∈ nodes → ∀ j ∈ assigned,
        Allowed (fun a b => (a, b) ∈ (statusNode nodes).nests) (.shared, node n)
          (.shared, job j) :=
      fun n assigned known j mem => .own (List.mem_flatMap.mpr ⟨_, known, List.mem_map.mpr ⟨j, mem, rfl⟩⟩)
    simpa [code, handleStatusNode, formatNodeStatus, readJobMgr, readNodeMgr, readJob,
      Allowed.mgrOfNode] using own
  | checkNodes nodes =>
    have own : ∀ n assigned, (n, assigned) ∈ nodes → ∀ j ∈ assigned,
        Allowed (fun a b => (a, b) ∈ (checkNodes nodes).nests) (.exclusive, job j)
          (.exclusive, node n) :=
      fun n assigned known j mem => .own (List.mem_flatMap.mpr ⟨_, known, List.mem_map.mpr ⟨j, mem, rfl⟩⟩)
    simpa [code, Locks.checkNodes, requeueNodeJobs, markNodeDown, readJobMgr, readQueueMgr,
      readNodeMgr, writeNode, readJob, readNode] using own
  | _ => simp [code, readJobMgr, writeJobMgr, readNodeMgr, writeNodeMgr, readQueueMgr, writeQueueMgr,
      readJob, writeJob, readNode, writeNode, jobNodeRequest, saveNodes, releaseHosts,
      releaseNodeResources, queueAllowsSubmitHost, handleQueueJob, admitToQueue, routeJob,
      finalizeRoute, commitJobInstance, processJobArray, submit, handleJobScript, handleCommit,
      handleDeleteJob, handleHoldJob, handleModifyJob, handleMoveJob, handleCheckpointJob,
      resolveDependencies, handleJobObit, handleISMessage, handleSelectJobs, handleStatusJob,
      handleStatusQueue, handleStatusServer, mgrCreateQueue, mgrCreateNode, mgrDeleteNode,
      mgrSetNode, saveState, Locks.promoteWaitingJobs, requeueRecoveredJob,
      reconcileRunningJobsWithMOMs, Locks.completedJobCleanup, restoreRecoveredRunningJobs,
      recoverState]

theorem Allowed.mono {own own' : Mutex → Mutex → Prop} {a b : Mode × Mutex}
    (more : ∀ a b, own a b → own' a b) (allowed : Allowed own a b) : Allowed own' a b := by
  cases allowed with
  | own pair => exact .own (more _ _ pair)
  | jobOfMgr => exact .jobOfMgr
  | mgrOfNode => exact .mgrOfNode
  | nodeMgrOfJob => exact .nodeMgrOfJob
  | queueMgrOfJob => exact .queueMgrOfJob

end Activity

def Mutex.ofObject : Mutex → Bool
  | job _ | node _ => true
  | _ => false

theorem Activity.ofObject_of_nests {t : Activity} {a b : Mutex} (pair : (a, b) ∈ t.nests) :
    a.ofObject = true ∧ b.ofObject = true := by
  cases t <;> simp [nests] at pair <;> grind [Mutex.ofObject]

namespace Locks
open Mutex Activity

section Acyclic
variable {own : Mutex → Mutex → Prop}

theorem not_allowed_self (acyclic : ∀ l, ¬ Relation.TransGen own l l) (m : Mode)
    (a : Mode × Mutex) : ¬ Allowed own (m, a.2) a := by
  obtain ⟨m', l⟩ := a
  intro allowed
  cases allowed with
  | own pair => exact acyclic l (.single pair)

variable (objects : ∀ a b, own a b → a.ofObject = true ∧ b.ofObject = true)
include objects

/-- Between two other waits, a wait is for a job or a node: a shared holder of the job manager
blocks only a writer of it, and these hold nothing else. -/
theorem own_of_blocks {z a b c : Mode × Mutex} (before : Pool.Blocks (Allowed own) z a)
    (blocks : Pool.Blocks (Allowed own) a b) (after : Pool.Blocks (Allowed own) b c) :
    own a.2 b.2 := by
  obtain ⟨mz, lz⟩ := z
  obtain ⟨ma, la⟩ := a
  obtain ⟨mb, lb⟩ := b
  obtain ⟨m, excluded, allowed⟩ := blocks
  obtain ⟨m', excluded', later⟩ := after
  obtain ⟨m'', -, earlier⟩ := before
  cases allowed with
  | own pair => exact pair
  | jobOfMgr =>
    cases earlier with
    | own pair => cases (objects _ _ pair).2
    | mgrOfNode => cases excluded
  | mgrOfNode =>
    cases later with
    | own pair => cases (objects _ _ pair).1
    | jobOfMgr => cases excluded'
  | nodeMgrOfJob | queueMgrOfJob =>
    cases later with
    | own pair => cases (objects _ _ pair).1

theorem own_chain {z a b c : Mode × Mutex} (before : Pool.Blocks (Allowed own) z a)
    (path : Relation.TransGen (Pool.Blocks (Allowed own)) a b)
    (after : Pool.Blocks (Allowed own) b c) : Relation.TransGen own a.2 b.2 := by
  induction path generalizing c with
  | single blocks => exact .single (own_of_blocks objects before blocks after)
  | tail path blocks ih =>
    obtain ⟨y, -, last⟩ := Relation.TransGen.tail'_iff.mp path
    exact .tail (ih blocks) (own_of_blocks objects last blocks after)

theorem blocks_acyclic (acyclic : ∀ l, ¬ Relation.TransGen own l l) (a : Mode × Mutex) :
    ¬ Relation.TransGen (Pool.Blocks (Allowed own)) a a := by
  intro cycle
  obtain ⟨y, first, -⟩ := Relation.TransGen.head'_iff.mp cycle
  obtain ⟨z, -, last⟩ := Relation.TransGen.tail'_iff.mp cycle
  exact acyclic a.2 (own_chain objects last cycle first)

end Acyclic

/-- Any task starts with any of its traces, or a program in progress does its next step,
unless it has to wait. -/
inductive Event where
  | start (t : Activity) (trace : List (Op Mutex))
  | advance (i : Nat)

def next (pool : Pool Mutex) : Event → Pool Mutex
  | .start t trace => if t.code.traces.rmatch trace then pool ++ [⟨trace, []⟩] else pool
  | .advance i => pool.advance i

def started (events : List Event) : List Activity :=
  events.filterMap fun
    | .start t _ => some t
    | .advance _ => none

/-- A task of the run locks the second job or node while it holds the first. -/
def Nested (events : List Event) (a b : Mutex) : Prop := ∃ t ∈ started events, (a, b) ∈ t.nests

theorem ordered_run {own : Mutex → Mutex → Prop} {events : List Event} {pool : Pool Mutex}
    (known : ∀ t ∈ started events, ∀ a b, (a, b) ∈ t.nests → own a b)
    (ordered : pool.Ordered (Allowed own)) :
    (events.foldl next pool).Ordered (Allowed own) := by
  induction events generalizing pool with
  | nil => exact ordered
  | cons event events ih =>
    cases event with
    | advance i => exact ih known (ordered.advance i)
    | start t trace =>
      have later := fun u mem => known u (List.mem_cons_of_mem t mem)
      rw [List.foldl_cons, next]
      split
      case isFalse => exact ih later ordered
      case isTrue matched =>
        refine ih later (ordered.start (Code.follows ?_ matched))
        intro x mem
        exact (t.within_code x mem).mono (known t List.mem_cons_self)

/-- In any interleaving of any number of tasks whose nested jobs and nodes have no cycle, no
programs wait for each other in a cycle, and none waits for a mutex that it holds. -/
theorem no_deadlock (events : List Event)
    (acyclic : ∀ l, ¬ Relation.TransGen (Nested events) l l) :
    ¬ Pool.Deadlocked (events.foldl next []) ∧ ¬ Pool.SelfWaiting (events.foldl next []) := by
  have ordered : Pool.Ordered (Allowed (Nested events)) (events.foldl next []) :=
    ordered_run (fun t mem a b pair => ⟨t, mem, pair⟩) (by simp [Pool.Ordered])
  have objects : ∀ a b, Nested events a b → a.ofObject = true ∧ b.ofObject = true := by
    rintro a b ⟨t, -, pair⟩
    exact ofObject_of_nests pair
  exact ⟨ordered.not_deadlocked (blocks_acyclic objects acyclic),
    ordered.not_selfWaiting (not_allowed_self acyclic)⟩

/-- `pbsnodes` for a node that runs job `a`. -/
def statusTrace : List (Op Mutex) :=
  [.acquire .shared .nodeMgr, .release .shared .nodeMgr, .acquire .shared (.node "n"),
    .acquire .shared .jobMgr, .release .shared .jobMgr, .acquire .shared (.job "a"),
    .release .shared (.job "a"), .release .shared (.node "n")]

def orderTrace : List (Op Mutex) :=
  [.acquire .shared .jobMgr, .release .shared .jobMgr, .acquire .shared .jobMgr,
    .release .shared .jobMgr, .acquire .exclusive (.job "a"), .acquire .exclusive (.job "b"),
    .release .exclusive (.job "b"), .release .exclusive (.job "a"), .acquire .shared (.job "a"),
    .release .shared (.job "a"), .acquire .shared (.job "b"), .release .shared (.job "b")]

/-- `qorder` has locked its first job when `pbsnodes` gets to that job. -/
def orderedEvents : List Event :=
  [.start (.statusNode [("n", ["a"])]) statusTrace, .start (.orderJob "a" "b") orderTrace] ++
    List.replicate 5 (.advance 1) ++ List.replicate 6 (.advance 0)

/-- `pbsnodes` waits for `qorder`, which waits for nobody. -/
theorem no_deadlock_ordered :
    Pool.waits (orderedEvents.foldl next []) 0 = true ∧
      Pool.waits (orderedEvents.foldl next []) 1 = false ∧
      ¬ Pool.Deadlocked (orderedEvents.foldl next []) ∧
      ¬ Pool.SelfWaiting (orderedEvents.foldl next []) := by
  refine ⟨by decide +kernel, by decide +kernel, no_deadlock orderedEvents fun l cycle => ?_⟩
  let rank : Mutex → Nat
    | .job "a" => 1
    | .job _ => 2
    | _ => 0
  have rises : ∀ a b, Nested orderedEvents a b → rank a < rank b := by
    rintro a b ⟨t, mem, pair⟩
    simp [orderedEvents, started] at mem
    rcases mem with rfl | rfl <;> simp [Activity.nests] at pair <;> grind
  have path := cycle.lift rank rises
  rw [Relation.transGen_eq_self] at path
  exact Nat.lt_irrefl _ path

/-- `pbsnodes` holds the node and waits for the job, `qrerun` holds the job and waits for the
node. -/
def crossed : Pool Mutex :=
  [⟨[.acquire .shared (.job "a"), .release .shared (.job "a"), .release .shared (.node "n")],
    [(.shared, .node "n")]⟩,
    ⟨[.acquire .exclusive (.node "n"), .release .exclusive (.node "n"), .release .exclusive (.job "a")],
    [(.exclusive, .job "a")]⟩]

def rerunTrace : List (Op Mutex) :=
  [.acquire .shared .jobMgr, .release .shared .jobMgr, .acquire .shared (.job "a"),
    .release .shared (.job "a"), .acquire .exclusive (.job "a"), .acquire .shared .nodeMgr,
    .release .shared .nodeMgr, .acquire .exclusive (.node "n"), .release .exclusive (.node "n"),
    .release .exclusive (.job "a")]

def crossedEvents : List Event :=
  [.start (.statusNode [("n", ["a"])]) statusTrace, .start (.rerunJob "a" (some "n")) rerunTrace] ++
    List.replicate 5 (.advance 0) ++ List.replicate 7 (.advance 1)

theorem crossedEvents_run : crossedEvents.foldl next [] = crossed := by decide +kernel

theorem status_and_rerun_deadlock :
    Pool.Deadlocked (crossedEvents.foldl next []) := by
  have first : Pool.WaitsFor crossed 0 1 :=
    ⟨(.shared, .job "a"), _, ⟨_, _, rfl, rfl⟩, rfl, rfl⟩
  have second : Pool.WaitsFor crossed 1 0 :=
    ⟨(.exclusive, .node "n"), _, ⟨_, _, rfl, rfl⟩, rfl, rfl⟩
  rw [crossedEvents_run]
  exact ⟨0, .tail (.single first) second⟩

end Locks

end OpenTorque.Pbs
