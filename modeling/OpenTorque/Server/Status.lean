import OpenTorque.Server.Operation

/-! The status replies for jobs, queues and nodes. -/
namespace OpenTorque.Pbs

def plain (name value : String) : Attr := { name, value }

def ofResource (name resc value : String) : Attr := { name, value, resc, hasResc := true }

/-- The helper `add` of `formatJobStatus`, which drops empty values. -/
def shown (name value : String) : List Attr := if value = "" then [] else [plain name value]

def shownIf (condition : Bool) (name value : String) : List Attr :=
  if condition then [plain name value] else []

/-- One attribute for each entry of a map, in the order of a loop over it. -/
def eachOf (order : RangeOrder) (m : Assoc V) (attr : String → V → List Attr) : List Attr :=
  (m.range order).flatMap fun k => (m.lookup k).elim [] (attr k)

namespace Job

def shownText (j : Job) (fields : List JobText) : List Attr :=
  fields.flatMap fun field => shown field.attr (j.text field)

def shownTime (name : String) (t : Time) : List Attr :=
  if Time.isZero t then [] else shown name (itoa (Time.unix t))

def shownResources (order : RangeOrder) (name : String) (m : Assoc String) : List Attr :=
  eachOf order m fun resc v => if v = "" then [] else [ofResource name resc v]

def variableText (j : Job) (order : RangeOrder) : String :=
  Text.join "," ((j.variableList.range order).map fun k =>
    k ++ "=" ++ (j.variableList.lookup k).getD "")

/-- `formatJobStatus` -/
def status (j : Job) (id : String) (order : RangeOrder) : StatusObject where
  name := id
  attrs :=
    j.shownText [.name] ++ shown "Job_Owner" j.owner ++ shown "job_state" j.state.name ++
    shown "queue" j.queue ++ j.shownText [.server, .checkpoint] ++
    (if j.text .checkpoint = "" then shown "Checkpoint" "u" else []) ++
    j.shownText [.stdoutPath, .stderrPath, .joinPath, .keepFiles, .account, .shell, .mailPoints,
      .mailUsers, .rerunnable] ++
    shown "Hold_Types" j.holdTypes ++ j.shownText [.userList] ++ shown "depend" j.dependList ++
    j.shownText [.stageinList, .stageoutList, .groupList] ++
    shown "job_array_request" j.jobArrayReq ++ j.shownText [.initWorkDir] ++
    shown "comment" j.comment ++
    shownIf (j.priority ≠ 0) "Priority" (itoa j.priority) ++
    shownTime "Execution_Time" j.executionTime ++
    shown "exec_host" j.execHost ++ shown "provision_vm" j.provisionVM ++
    shown "provision_node" j.provisionNode ++
    shownIf (0 < j.execPort) "exec_port" (itoa j.execPort) ++
    shownIf (0 < j.sessionID) "session_id" (itoa j.sessionID) ++
    shownTime "ctime" j.createTime ++ shownTime "qtime" j.queueTime ++
    shownTime "start_time" j.startTime ++ shownTime "comp_time" j.compTime ++
    shownTime "mtime" j.mTime ++ j.shownText [.euser, .egroup] ++
    shownIf (j.state = .complete || j.state = .exiting) "exit_status" (itoa j.exitStatus) ++
    shownResources order "Resource_List" j.resourceReq ++
    shownResources order "resources_used" j.resourceUsed ++
    shown "Variable_List" (j.variableText order) ++
    j.shownText [.hashName, .faultTolerant, .jobRadix, .reqVersion]

end Job

namespace Queue

def shownNumber (q : Queue) (f : QueueNumber) : List Attr :=
  shownIf (0 < q.number f) f.attr (itoa (q.number f))

def shownText (q : Queue) (f : QueueText) : List Attr := shown f.attr (q.text f)

def shownList (q : Queue) (f : QueueList) : List Attr :=
  shownIf (q.list f ≠ []) f.attr (Text.join "," (q.list f))

def stateCount (q : Queue) : String :=
  Text.join " " ((["Transit:", "Queued:", "Held:", "Waiting:", "Running:", "Exiting:",
    "Complete:"].zip q.stateJobs).map fun (name, n) => name ++ itoa n)

/-- `formatQueueStatus`, once the counters have been refreshed. -/
def status (q : Queue) (name : String) (order : RangeOrder) : StatusObject where
  name := name
  attrs :=
    [plain "queue_type" (if q.type = .execution then "Execution" else "Route"),
      plain "total_jobs" (itoa q.totalJobs), plain "state_count" q.stateCount,
      plain "enabled" (boolText (q.flag .enabled)),
      plain "started" (boolText (q.flag .started))] ++
    shownIf (q.number .priority ≠ 0) "Priority" (itoa (q.number .priority)) ++
    q.shownList .disallowedTypes ++ q.shownNumber .maxJobs ++ q.shownNumber .maxRun ++
    q.shownNumber .maxUserJobs ++ q.shownNumber .maxUserRun ++
    shownIf (q.flag .aclUserEnabled) "acl_user_enable" "True" ++ q.shownList .aclUsers ++
    shownIf (q.flag .aclGroupEnabled) "acl_group_enable" "True" ++ q.shownList .aclGroups ++
    shownIf (q.flag .aclHostEnabled) "acl_host_enable" "True" ++ q.shownList .aclHosts ++
    q.shownText .naccessPolicy ++ q.shownList .hostList ++ q.shownList .routeDestin ++
    shownIf q.fromRouteOnly "from_route_only" "True" ++
    [QueueLimits.min, .max, .dflt].flatMap (fun f =>
      eachOf order (q.resource f) fun resc v => [ofResource f.attr resc v]) ++
    q.shownText .cloudProvider ++ q.shownText .cloudVMSKU ++ q.shownNumber .cloudMinNodes ++
    q.shownNumber .cloudMaxNodes ++ q.shownNumber .cloudIdleTime ++
    q.shownNumber .cloudProvisionTimeout ++ q.shownText .cloudReclaim ++
    q.shownText .cloudSubnetID ++ q.shownText .cloudImageID ++ q.shownNumber .cloudDiskSize ++
    q.shownText .cloudDiskType ++ q.shownText .cloudSSHKey ++ q.shownText .cloudLocation ++
    q.shownText .cloudRgName ++ q.shownNumber .cloudCooldown ++
    q.shownNumber .cloudScaleHeadroom ++ q.shownNumber .cloudDrainTimeout

end Queue

namespace Server

/-- The processors `formatNodeStatus` counts for one assigned id. -/
def chargedCPUs (s : Server) (env : Env) (jid : String) : Int :=
  ((s.getJob env jid).map (·.2.requestedCPUs)).getD 1

/-- The generic resources in use on a node, by name. -/
def gresUsed (s : Server) (env : Env) (n : Node) : Assoc Int :=
  (n.assignedJobs.flatMap fun jid => ((s.getJob env jid).map (·.2.genericReqs)).getD []).foldl
    (fun m (name, req) => m.insert name (wrap64 ((m.lookup name).getD 0 + req))) ∅

/-- `formatNodeStatus` -/
def nodeStatus (s : Server) (env : Env) (name : String) (n : Node) : StatusObject where
  name := name
  attrs :=
    [plain "state" n.state.stateName, plain "power_state" n.powerState,
      plain "np" (itoa n.numProcs), plain "ntype" "cluster"] ++
    eachOf (env.order .resources) n.status
      (fun k v => if k = "state" then [] else [plain k v]) ++
    (if n.assignedJobs = [] then []
      else [plain "jobs" (Text.join ", " n.assignedJobs), plain "used_cpus"
        (itoa (n.assignedJobs.foldl (fun used jid => wrap64 (used + s.chargedCPUs env jid)) 0))]) ++
    eachOf (env.order .gres) n.gres
      (fun resc count => [plain ("resources_available." ++ resc) (itoa count)]) ++
    eachOf (env.order .gres) (s.gresUsed env n)
      (fun resc used => [plain ("gres_used." ++ resc) (itoa used)]) ++
    shownIf (n.properties ≠ []) "properties" (Text.join "," n.properties) ++
    shownIf (n.groups ≠ []) "hostgroups" (Text.join "," n.groups) ++
    shown "note" n.note ++ shownIf n.dynamic "is_dynamic" "true"

def refreshQueueCounts (s : Server) (name : String) : Server :=
  let here := (s.jobMgr.jobs.entries.map (·.2)).filter (·.queue = name)
  s.onQueue name (·.recount here.length (here.foldl (fun counts j => counts.incr j.state) .zero))

def handleStatusJob (s : Server) (env : Env) (given : String) : Handled :=
  let order := env.order .resources
  if given = "" then
    let ids := s.jobMgr.jobs.keys.insertionSort (· ≤ ·)
    s.answer (.status (ids.filterMap fun id => (s.jobMgr.jobs.lookup id).map (·.status id order)))
  else
    match s.getJob env given with
    | none => s.refuse pbseUnkjobid
    | some (id, j) => s.answer (.status [j.status id order])

def queueObjects (s : Server) (env : Env) (names : List String) : List StatusObject :=
  names.filterMap fun name => (s.queueMgr.lookup name).map (·.status name (env.order .resources))

def handleStatusQueue (s : Server) (env : Env) (name : String) : Handled :=
  if name ≠ "" ∧ name ∉ s.queueMgr then s.refuse pbseUnkQue
  else
    let names := if name = "" then s.queueMgr.range (env.order .anyQueue) else [name]
    let s := names.foldl refreshQueueCounts s
    s.answer (.status (s.queueObjects env names))

def nodeObjects (s : Server) (env : Env) (names : List String) : List StatusObject :=
  names.filterMap fun name => (s.nodeMgr.lookup name).map (s.nodeStatus env name)

def handleStatusNode (s : Server) (env : Env) (name : String) : Handled :=
  if name ≠ "" ∧ name ∉ s.nodeMgr then s.refuse pbseUnkNode
  else s.answer (.status (s.nodeObjects env (if name = "" then s.allNodes env else [name])))

end Server

end OpenTorque.Pbs
