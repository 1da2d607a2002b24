import OpenTorque.Server.Submission

/-! The requests that act on a submitted job, and its dispatch to the MOMs of its
nodes. A handler that is given an id keeps the client's text of it (`given`) apart from
the key it resolved to (`id`), because several handlers go on with the former. -/
namespace OpenTorque.Pbs

/-- The verdict of one dependency of a job. -/
inductive Dependency where
  | met
  | unmet
  | failed (comment : String)
  deriving DecidableEq, Repr

/-- The pairs of a type and a job id in a dependency list. -/
def dependencies (depend : String) : List (String × String) :=
  (Text.split ',' depend).flatMap fun clause =>
    match Text.cut ':' clause with
    | none => []
    | some (type, ids) =>
      (((Text.split ':' ids).map Text.trimSpace).filter (· ≠ "")).map (type, ·)

namespace Server

/-- The verdict of `checkDependencies` on one pair. -/
def dependency (s : Server) (env : Env) : String × String → Dependency
  | ("afterok", given) =>
    match s.getJob env given with
    | none => .met
    | some (_, dep) =>
      if dep.state ≠ .complete then .unmet
      else if dep.exitStatus ≠ 0 then
        .failed ("dependency " ++ given ++ " failed (exit=" ++ itoa dep.exitStatus ++ ")")
      else .met
  | ("afternotok", given) =>
    match s.getJob env given with
    | none => .unmet
    | some (_, dep) => if dep.state ≠ .complete ∨ dep.exitStatus = 0 then .unmet else .met
  | ("afterany", given) =>
    match s.getJob env given with
    | none => .met
    | some (_, dep) => if dep.state ≠ .complete then .unmet else .met
  | _ => .met

/-- `checkDependencies`: the first verdict that is not `met`. -/
def checkDependencies (s : Server) (env : Env) (j : Job) : Dependency :=
  (((dependencies j.dependList).map (s.dependency env)).find? (· ≠ .met)).getD .met

/-- `ReleaseJob` on every node of a list of names. -/
def releaseOn (s : Server) (names : List String) (id : String) (slots : Int) : Server :=
  names.foldl (fun s name => s.onNode name (·.releaseJob id slots)) s

/-- `releaseNodeResources` -/
def releaseNodeResources (s : Server) (env : Env) (execHost given : String) : Server :=
  let slots := ((s.getJob env given).map (·.2.requestedCPUs)).getD 1
  s.releaseOn (Job.hostNames execHost) given slots

/-- The address `sendDeleteToMOM` writes to. -/
def deleteMessages (id : String) (j : Job) : List DeleteMessage :=
  if j.execHost = "" then []
  else [⟨Text.before '/' j.execHost, if j.execPort = 0 then 15002 else j.execPort, id⟩]

/-- Remove a job, under the id the client gave. -/
def delete (s : Server) (env : Env) (given : String) (j : Job) : Server :=
  let released := if j.state = .running then s.releaseNodeResources env j.execHost given else s
  let counted := released.onQueue j.queue (·.decrJobCount j.state)
  ((counted.updateJobState env given .complete).onStore (·.deleteJob given)).removeJob given

def handleDeleteJob (s : Server) (env : Env) (given : String) : Handled :=
  match s.getJob env given with
  | none => s.refuse pbseUnkjobid
  | some (id, j) =>
    { server := s.delete env given j
      reply := .ok
      sent := if j.state = .running then deleteMessages id j else [] }

def handleHoldJob (s : Server) (env : Env) (given : String) : Handled :=
  match s.getJob env given with
  | none => s.refuse pbseUnkjobid
  | some (id, j) =>
    if j.state = .queued then
      ((s.putJob id (j.setState env.now .held)).onQueue j.queue
        (·.transferJobState .queued .held)).accept
    else if j.state = .waiting then (s.putJob id (j.setState env.now .held)).accept
    else s.accept

def handleReleaseJob (s : Server) (env : Env) (given : String) : Handled :=
  match s.getJob env given with
  | none => s.refuse pbseUnkjobid
  | some (id, j) =>
    let released := j.setHold ""
    if j.state = .held then
      ((s.putJob id (released.setState env.now .queued)).onQueue j.queue
        (·.transferJobState .held .queued)).accept
    else (s.putJob id released).accept

def handleModifyJob (s : Server) (env : Env) (given : String) (attrs : List Attr) : Handled :=
  match s.getJob env given with
  | none => s.refuse pbseUnkjobid
  | some (id, j) =>
    let j := j.applyJobAttrs id env.now attrs
    ((s.putJob id j).saveJob id j).accept

def handleMoveJob (s : Server) (env : Env) (given dest : String) : Handled :=
  match s.getJob env given with
  | none => s.refuse pbseUnkjobid
  | some (id, j) =>
    let queue := Text.before '@' dest
    if queue ∉ s.queueMgr then s.refuse pbseUnkQue
    else if j.state ∈ [.running, .exiting, .complete, .provisioning] then s.refuse pbseBadReq
    else if j.queue = queue then s.accept
    else
      let moved := j.setQueue queue
      let counted := ((s.putJob id moved).onQueue j.queue (·.decrJobCount j.state)).onQueue queue
        (·.incrJobCount j.state)
      (counted.saveJob id moved).accept

/-- Put a job back into its queue: no host, state `Queued`, the queue's counters and
the document. -/
def requeue (s : Server) (env : Env) (id : String) (j : Job) : Server :=
  let queued := (j.setExec "" 0).setState env.now .queued
  ((s.putJob id queued).onQueue j.queue (·.transferJobState j.state .queued)).saveJob id queued

/-- `handleRerunJob` releases the first host of a running job only. -/
def handleRerunJob (s : Server) (env : Env) (given : String) : Handled :=
  match s.getJob env given with
  | none => s.refuse pbseUnkjobid
  | some (id, j) =>
    if j.state = .running ∧ j.execHost ≠ "" then
      ((s.onNode (Text.before '/' j.execHost) (·.releaseJob id j.requestedCPUs)).requeue
        env id j).accept
    else if j.state = .running ∨ j.state = .queued then (s.requeue env id j).accept
    else s.refuse pbseBadReq

/-- `handleOrderJob` swaps the creation times; naming one job twice locks its mutex
twice. -/
def handleOrderJob (s : Server) (env : Env) (given₁ given₂ : String) : Handled :=
  match s.getJob env given₁, s.getJob env given₂ with
  | some (id₁, j₁), some (id₂, j₂) =>
    if id₁ = id₂ then s.hang
    else
      let k₁ := j₁.setCreateTime j₂.createTime
      let k₂ := j₂.setCreateTime j₁.createTime
      ((((s.putJob id₁ k₁).putJob id₂ k₂).saveJob id₁ k₁).saveJob id₂ k₂).accept
  | _, _ => s.refuse pbseUnkjobid

/-- Requests that only look the job up: `SignalJob`, `MessJob`. -/
def handleLookup (s : Server) (env : Env) (given : String) : Handled :=
  if (s.getJob env given).isSome then s.accept else s.refuse pbseUnkjobid

def handleLocateJob (s : Server) (env : Env) (given : String) : Handled :=
  if (s.getJob env given).isSome then s.answer (.text s.cfg.serverName)
  else s.refuse pbseUnkjobid

def handleSelectJobs (s : Server) (env : Env) : Handled :=
  s.answer (.text (Text.join "\n" (s.allJobs env)))

def handleCheckpointJob (s : Server) (env : Env) (given : String) : Handled :=
  match s.getJob env given with
  | none => s.refuse pbseUnkjobid
  | some (_, j) => if j.state = .running then s.accept else s.refuse pbseBadReq

/-- The nodes `runJobMulti` takes: the anchor and the first free ones of the loop. -/
def selectNodes (s : Server) (env : Env) (first : String) (nodeCount ppn : Int) : List String :=
  let free := (s.allNodes env).filter fun name => name ≠ first &&
    (s.nodeMgr.lookup name).any fun n => n.isFree && ppn ≤ n.availableSlots
  first :: free.take (nodeCount - 1).toNat

theorem selectNodes_present {s : Server} (present : first ∈ s.nodeMgr) (env : Env)
    (count ppn : Int) : ∀ name ∈ s.selectNodes env first count ppn, name ∈ s.nodeMgr := by
  intro name member
  rcases List.mem_cons.mp member with same | taken
  · exact same ▸ present
  · simpa [allNodes] using (List.mem_filter.mp (List.mem_of_mem_take taken)).1

def assignOn (s : Server) (names : List String) (id : String) (slots : Int) : Server :=
  names.foldl (fun s name => s.onNode name (·.assignJob id slots)) s

def execHostOf (names : List String) : String := Text.join "+" (names.map (· ++ "/0"))

/-- Start a job on nodes that have been chosen: assign it, record its hosts, save it and
dispatch it to every node. -/
def start (s : Server) (env : Env) (id : String) (j : Job) (names : List String) (slots port : Int) :
    Server :=
  let running := (j.setExec (execHostOf names) port).setState env.now .running
  ((((s.assignOn names id slots).putJob id running).onQueue j.queue
    (·.transferJobState j.state .running)).saveJob id running).spawn
    (names.map fun name => { job := id, node := name })

/-- The node and task counts of a job that asked for several nodes. -/
@[simps state execHost]
def sized (j : Job) (nodeCount ppn : Int) : Job :=
  { j with nodeCount, taskCount := wrap64 (nodeCount * ppn) }

/-- `runJobMulti`: too few free nodes leave the job as it is. -/
def runJobMulti (s : Server) (env : Env) (id : String) (j : Job) (first : String) (port : Int)
    (nodeCount ppn : Int) : Server :=
  let selected := s.selectNodes env first nodeCount ppn
  if (selected.length : Int) < nodeCount then s
  else s.start env id (sized j nodeCount ppn) selected ppn port

/-- The part of `handleRunJob` for a node the scheduler chose. -/
def runOnNode (s : Server) (env : Env) (id : String) (j : Job) (name : String) (n : Node) : Server :=
  let (nodeCount, ppn) := j.nodeRequest
  if 1 < nodeCount then s.runJobMulti env id j name n.momPort nodeCount ppn
  else s.start env id j [name] j.requestedCPUs n.momPort

def handleRunJob (s : Server) (env : Env) (given dest : String) : Handled :=
  if s.haEnabled && !s.haActive then s.refuse pbseBadReq
  else
    match s.getJob env given with
    | none => s.refuse pbseUnkjobid
    | some (id, j) =>
      if j.state ≠ .queued ∧ j.state ≠ .provisioning then s.refuse pbseBadReq
      else if !s.enforceRunLimits j then s.refuse pbsePerm
      else
        match s.checkDependencies env j with
        | .unmet => s.refuse pbseBadReq
        | .failed comment => (s.putJob id (j.setComment comment)).refuse pbseBadReq
        | .met =>
          if dest = "" then s.accept
          else
            let name := Text.before '/' dest
            match s.nodeMgr.lookup name with
            | none => s.refuse pbseUnkNode
            | some n => (s.runOnNode env id j name n).accept

def usedResources (j : Job) (attrs : List Attr) : Assoc String :=
  (attrs.filter fun a => a.name = "resources_used" && a.hasResc).foldl
    (fun m a => m.insert a.resc a.value) j.resourceUsed

/-- The job after its obituary. -/
def obituary (j : Job) (env : Env) (exitStatus : Int) (attrs : List Attr) : Job :=
  { j.setState env.now .complete with
    exitStatus := exitStatus, resourceUsed := usedResources j attrs }

/-- Record the end of a job and release its nodes, under the id the MOM gave. -/
def finish (s : Server) (env : Env) (given id : String) (j done : Job) : Server :=
  let ended := s.putJob id done
  let released := if j.execHost = "" then ended
    else ended.releaseNodeResources env j.execHost given
  (released.onQueue j.queue (·.transferJobState j.state .complete)).saveJob id done

def handleJobObit (s : Server) (env : Env) (remote : String) (privileged : Bool) (given : String)
    (exitStatus : Int) (attrs : List Attr) : Handled :=
  if !privileged && remote ∉ s.authMap then s.reject pbseBadCred
  else
    match s.getJob env given with
    | none => s.accept
    | some (id, j) => (s.finish env given id j (obituary j env exitStatus attrs)).accept

@[simps]
def endDispatch (s : Server) (d : Dispatch) : Server :=
  { s with dispatches := s.dispatches.erase d }

/-- `dispatchJobToMOM` that got through; the reply to `Commit` may carry a session. -/
def dispatchDone (s : Server) (d : Dispatch) (session : String) : Server :=
  match s.jobMgr.object d.job, parseInt session with
  | some j, some sid => (s.endDispatch d).onJobs (·.putObject d.job (j.setSession sid))
  | _, _ => s.endDispatch d

/-- `undoJobDispatch` -/
def undoJobDispatch (s : Server) (env : Env) (d : Dispatch) : Server :=
  match s.jobMgr.object d.job with
  | none => s
  | some j =>
    let reverted := s.onJobs (·.putObject d.job ((j.setState env.now .queued).setExec "" 0))
    let released := if d.detached then reverted
      else reverted.onNode d.node (·.releaseJob d.job j.requestedCPUs)
    released.onQueue j.queue (·.transferJobState .running .queued)

/-- `dispatchJobToMOM` that failed at any of its steps. -/
def dispatchFailed (s : Server) (env : Env) (d : Dispatch) : Server :=
  (s.endDispatch d).undoJobDispatch env d

end Server

end OpenTorque.Pbs
