import OpenTorque.Server.Control

/-! Node status, `qmgr` requests, the background tasks and the recovery of the state at
start-up. -/
namespace OpenTorque.Pbs

/-- An `IS` message of a MOM: its port and status items. The rest is what the network
package says of the peer: the name its address resolves to, its IP, and whether a
range in CIDR notation is valid and contains it. -/
structure StatusMessage where
  momPort : Int
  items : List String
  peerName : String
  peerIP : Option String
  inRange : String → Option Bool

/-- The host a status message is about. -/
def StatusMessage.hostname (msg : StatusMessage) : String :=
  match msg.items.findSome? (Text.afterPrefix "node=") with
  | none | some "" => msg.peerName
  | some name => name

namespace Node

def applyState (n : Node) (value : String) : Node :=
  match Text.toLower value with
  | "offline" => { n with state := { n.state with offline := true } }
  | "drain" => { n with state := { n.state with drain := true } }
  | "excl" | "e" | "exclusive" => { n with state := { n.state with excl := true } }
  | "free" | "resume" | "clear" =>
    { n with state := { n.state with offline := false, drain := false, excl := false } }
  | _ => n

/-- One attribute of `applyNodeAttrs`. -/
def applyAttr (n : Node) (a : Attr) : Node :=
  match a.name with
  | "state" => n.applyState a.value
  | "np" =>
    let np := scanInto n.numProcs a.value
    { n with numProcs := np, slotsTotal := np }
  | "properties" => { n with properties := Text.split ',' a.value }
  | "hostgroups" | "groups" => { n with groups := parseList a.value }
  | "note" => { n with note := a.value }
  | "queue" => { n with queue := a.value }
  | "resources_available" =>
    match (parseInt a.value).filter (0 ≤ ·) with
    | some v => if a.resc = "" then n else { n with gres := n.gres.insert a.resc v }
    | none => n
  | name => { n with attrs := n.attrs.insert name a.value }

def applyNodeAttrs (n : Node) (attrs : List Attr) : Node := attrs.foldl applyAttr n

/-- What a status message changes on its node. -/
def receive (n : Node) (now : Time) (msg : StatusMessage) : Node :=
  { n with momPort := msg.momPort, ip := msg.peerIP.getD n.ip }.updateFromStatus now msg.items

theorem applyAttr_assignedJobs (n : Node) (a : Attr) :
    (n.applyAttr a).assignedJobs = n.assignedJobs := by
  unfold applyAttr
  split
  case h_1 => unfold applyState; split <;> rfl
  case h_8 => split <;> first | rfl | (split <;> rfl)
  all_goals rfl

@[simp] theorem applyNodeAttrs_assignedJobs (n : Node) (attrs : List Attr) :
    (n.applyNodeAttrs attrs).assignedJobs = n.assignedJobs := by
  induction attrs generalizing n with
  | nil => rfl
  | cons a attrs ih => exact (ih _).trans (n.applyAttr_assignedJobs a)

@[simp] theorem receive_assignedJobs (n : Node) (now : Time) (msg : StatusMessage) :
    (n.receive now msg).assignedJobs = n.assignedJobs := by simp [receive]

end Node

namespace Server

def saveNodes (s : Server) (env : Env) : Server :=
  s.onStore (·.saveNodes (s.nodeMgr.serialize (env.order .nodes)))

def saveQueue (s : Server) (env : Env) (name : String) : Server :=
  match s.queueMgr.lookup name with
  | none => s
  | some q => s.onStore (·.saveQueue name (q.serialize (env.order .resources)))

def saveServerDB (s : Server) (env : Env) : Server :=
  s.onStore (·.saveServerDB (s.cfg.serverDB (env.order .resources) s.jobMgr.nextJobID))

def ipInAllowedRanges (s : Server) (msg : StatusMessage) : Bool :=
  (Text.split ',' (s.cfg.text "node_allowed_ip_ranges")).any fun r =>
    Text.trimSpace r ≠ "" && (msg.inRange (Text.trimSpace r)).getD false

def tryAutoRegisterNode (s : Server) (env : Env) (name : String) (msg : StatusMessage) : Server :=
  if s.cfg.flag "allow_dynamic_nodes" && msg.peerIP.isSome && s.ipInAllowedRanges msg then
    let limit := s.cfg.number "np_default"
    let np := if s.cfg.flag "auto_node_np" && 0 < limit then limit else 1
    ((s.onNodes (·.addNode name np)).onNode name ({ · with dynamic := true })).saveNodes env
  else s

def handleISMessage (s : Server) (env : Env) (msg : StatusMessage) : Server :=
  let known := if msg.hostname ∈ s.nodeMgr then s else s.tryAutoRegisterNode env msg.hostname msg
  known.onNode msg.hostname (·.receive env.now msg)

/-- The commands of a `Manager` request. -/
inductive MgrCommand where
  | createQueue (name : String) (attrs : List Attr)
  | deleteQueue (name : String)
  | setQueue (name : String) (attrs : List Attr)
  | unsetQueue (name : String) (attrs : List Attr)
  | createNode (name : String) (attrs : List Attr)
  | deleteNode (name : String)
  | setNode (name : String) (attrs : List Attr)
  | setServer (attrs : List Attr)
  | unsetServer (attrs : List Attr)
  | unsupported
  deriving DecidableEq, Repr

/-- The processors a `create node` request gives. -/
def requestedProcs (attrs : List Attr) : Int :=
  (attrs.filter fun a => a.name = "np" || (a.name = "resources_available" && a.resc = "np")).foldl
    (fun np a => scanInto np a.value) 1

def unsetAttrs (q : Queue) (attrs : List Attr) : Queue :=
  { q with attrs := attrs.foldl (fun m a => m.erase a.name) q.attrs }

/-- Detach the dispatches to a node that leaves the manager. -/
@[simps]
def detach (s : Server) (name : String) : Server :=
  { s with dispatches := s.dispatches.map fun d =>
      if d.node = name then { d with detached := true } else d }

/-- The sub-handlers of `handleManager`; `none` is an error. -/
def manage (s : Server) (env : Env) : MgrCommand → Option Server
  | .createQueue name attrs =>
    if name ∈ s.queueMgr then none
    else some ((s.onQueues (·.insert name (({} : Queue).applyQueueAttrs attrs))).saveQueue env name)
  | .deleteQueue name =>
    if name ∈ s.queueMgr then
      some ((s.onQueues (·.erase name)).onStore (·.removeQueueFile name))
    else none
  | .setQueue name attrs =>
    if name ∈ s.queueMgr then
      some ((s.onQueue name (·.applyQueueAttrs attrs)).saveQueue env name)
    else none
  | .unsetQueue name attrs =>
    if name ∈ s.queueMgr then some ((s.onQueue name (unsetAttrs · attrs)).saveQueue env name)
    else none
  | .createNode name attrs =>
    some (((s.onNodes (·.addNode name (requestedProcs attrs))).onNode name
      (·.applyNodeAttrs attrs)).saveNodes env)
  | .deleteNode name =>
    if name ∈ s.nodeMgr then some (((s.onNodes (·.erase name)).detach name).saveNodes env)
    else none
  | .setNode name attrs =>
    if name ∈ s.nodeMgr then some ((s.onNode name (·.applyNodeAttrs attrs)).saveNodes env)
    else none
  | .setServer attrs => some ((s.onConfig (·.mgrSetServer attrs)).saveServerDB env)
  | .unsetServer attrs => some ((s.onConfig (·.mgrUnsetServer attrs)).saveServerDB env)
  | .unsupported => none

def handleManager (s : Server) (env : Env) (command : MgrCommand) : Handled :=
  match s.manage env command with
  | none => s.refuse pbseBadReq
  | some s => s.accept

/-- One round of the loop of `promoteWaitingJobs`. -/
def promote (env : Env) (s : Server) (id : String) : Server :=
  match s.jobMgr.jobs.lookup id with
  | none => s
  | some j =>
    if j.state = .waiting ∧ !Time.isZero j.executionTime ∧ j.executionTime < env.now then
      s.updateJobState env id .queued
    else s

def promoteWaitingJobs (s : Server) (env : Env) : Server := (s.allJobs env).foldl (promote env) s

/-- One job of a node that went down. -/
def requeueFrom (env : Env) (name : String) (s : Server) (jid : String) : Server :=
  match s.getJob env jid with
  | none => s
  | some (id, j) =>
    if j.state = .running then
      (s.onNode name (·.releaseJob id j.requestedCPUs)).requeue env id j
    else s

def requeueNodeJobs (s : Server) (env : Env) (name : String) : Server :=
  if s.cfg.flag "disable_automatic_requeue" then s
  else
    match s.nodeMgr.lookup name with
    | none => s
    | some n => n.assignedJobs.foldl (requeueFrom env name) s

def fiveMinutes : Int := 5 * 60 * Time.second

/-- One round of the loop of `checkNodes`. -/
def checkNode (env : Env) (s : Server) (name : String) : Server :=
  match s.nodeMgr.lookup name with
  | none => s
  | some n =>
    if !n.state.down && fiveMinutes < env.now - n.lastUpdate && !Time.isZero n.lastUpdate then
      (s.onNode name (·.markDown)).requeueNodeJobs env name
    else s

/-- A node that the next round of `checkNodes` will declare down. -/
def stale (s : Server) (env : Env) (name : String) : Bool :=
  (s.nodeMgr.lookup name).any fun n =>
    !n.state.down && fiveMinutes < env.now - n.lastUpdate && !Time.isZero n.lastUpdate

def checkNodes (s : Server) (env : Env) : Server := (s.allNodes env).foldl (checkNode env) s

/-- One job of the loop of `completedJobCleanup`. -/
def purge (env : Env) (s : Server) (id : String) : Server :=
  match s.jobMgr.jobs.lookup id with
  | none => s
  | some j =>
    if j.state = .complete ∧ !Time.isZero j.compTime ∧
        wrap64 (s.cfg.number "keep_completed" * Time.second) < env.now - j.compTime then
      ((s.onQueue j.queue (·.decrJobCount .complete)).onStore (·.deleteJob id)).removeJob id
    else s

def completedJobCleanup (s : Server) (env : Env) : Server := (s.allJobs env).foldl (purge env) s

def requeueRecoveredJob (s : Server) (env : Env) (id : String) (j : Job) : Server :=
  (s.releaseOn (Job.hostNames j.execHost) id (max j.nodeRequest.2 1)).requeue env id j

/-- One job of `reconcileRunningJobsWithMOMs`; a MOM that cannot be asked answers
`none`. -/
def reconcile (env : Env) (answer : String → Option (List String)) (s : Server) (id : String) :
    Server :=
  match s.jobMgr.jobs.lookup id with
  | none => s
  | some j =>
    let first := Text.before '/' (Text.before '+' j.execHost)
    if j.state ≠ .running ∨ j.execHost = "" ∨ first ∉ s.nodeMgr then s
    else
      match answer first with
      | none => s
      | some running => if id ∈ running then s else s.requeueRecoveredJob env id j

def reconcileRunningJobsWithMOMs (s : Server) (env : Env)
    (answer : String → Option (List String)) : Server :=
  (s.allJobs env).foldl (reconcile env answer) s

def saveAllJobs (env : Env) (s : Server) : Server :=
  (s.allJobs env).foldl (fun s id => (s.jobMgr.jobs.lookup id).elim s (s.saveJob id)) s

def saveState (s : Server) (env : Env) : Server :=
  let queued := (s.queueMgr.range (env.order .anyQueue)).foldl (·.saveQueue env ·)
    (s.saveServerDB env)
  saveAllJobs env (queued.saveNodes env)

/-- One document of `recoverQueues`. -/
def recoverQueue (s : Server) (name : String) : Server :=
  match s.store.queues.lookup name with
  | none => s
  | some doc => s.onQueues (·.insert name (Queue.deserialize doc))

/-- One document of `recoverJobs`. -/
def recoverJob (env : Env) (s : Server) (id : String) : Server :=
  match s.store.jobs.lookup id with
  | none => s
  | some doc =>
    let j := Job.deserialize doc s.cfg.serverName env.now
    let j := j.setScript ((s.store.scripts.lookup id).getD "")
    (s.onJobs (·.addJob id j)).onQueue j.queue (·.incrJobCount j.state)

/-- One job of `restoreRecoveredRunningJobs`. -/
def restoreOn (id : String) (slots : Int) (s : Server) (name : String) : Server :=
  s.onNode name fun n => if id ∈ n.assignedJobs then n else n.assignJob id slots

def restoreJob (s : Server) (id : String) : Server :=
  match s.jobMgr.jobs.lookup id with
  | none => s
  | some j =>
    if j.state ≠ .running ∨ j.execHost = "" then s
    else (Job.hostNames j.execHost).foldl (restoreOn id (max j.nodeRequest.2 1)) s

def recoverServerDB (s : Server) : Server :=
  match s.store.serverDB with
  | none => s
  | some doc =>
    (s.onConfig (·.recoverServerDB doc)).onJobs fun m =>
      ((Config.recoverNextJobID doc).map m.setNextJobID).getD m

def recoverQueues (s : Server) (env : Env) : Server :=
  (s.store.queues.range (env.order .anyQueue)).foldl recoverQueue s

def recoverNodes (s : Server) : Server :=
  s.store.nodes.elim s fun doc => s.onNodes (·.recoverNodes doc)

def recoverJobs (s : Server) (env : Env) : Server :=
  (s.store.jobs.range (env.order .jobs)).foldl (recoverJob env) s

def recoverState (s : Server) (env : Env) : Server :=
  let recovered := (s.recoverServerDB.recoverQueues env).recoverNodes.recoverJobs env
  (recovered.allJobs env).foldl restoreJob recovered

/-- A server process that starts over a store. -/
def boot (serverName : String) (store : Store) (env : Env) : Server :=
  (Server.new serverName store).recoverState env

end Server

end OpenTorque.Pbs
