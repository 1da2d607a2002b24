import Mathlib.Data.List.Sort
import OpenTorque.Server.Config
import OpenTorque.Server.Node

/-! The persistent store and the documents the server keeps in it: one per job with its
script, one per queue, the node inventory and `serverdb`. -/
namespace OpenTorque.Pbs

inductive Backend where
  | file | postgres
  deriving DecidableEq, Repr

/-- What a store holds: the documents `LoadJobs`, `LoadJobScript`, `LoadQueues`,
`LoadNodes` and `LoadServerDB` return. -/
structure Store where
  backend : Backend := .file
  serverDB : Option String := none
  nodes : Option String := none
  queues : Assoc String := ∅
  jobs : Assoc String := ∅
  scripts : Assoc String := ∅

namespace Store

/-- A row of `ot_jobs` has both documents; the one that was not given is empty. -/
def fill (backend : Backend) (m : Assoc String) (id : String) : Assoc String :=
  if backend = .postgres ∧ id ∉ m then m.insert id "" else m

def saveServerDB (st : Store) (doc : String) : Store := { st with serverDB := some doc }

def saveNodes (st : Store) (doc : String) : Store := { st with nodes := some doc }

/-- A name that can be given to a file of a directory. -/
def fileName (name : String) : Bool :=
  name ∉ ["", ".", ".."] && '/' ∉ name.toList && '\x00' ∉ name.toList

/-- A file is written beside its place, under the name with the suffix `.new`, and renamed. The
callers drop the error of a name that is no file name. -/
def saveQueue (st : Store) (name doc : String) : Store :=
  { st with
    queues := match st.backend with
      | .postgres => st.queues.insert name doc
      | .file =>
        if fileName name then (st.queues.erase (name ++ ".new")).insert name doc else st.queues }

def saveJob (st : Store) (id doc : String) : Store :=
  { st with jobs := st.jobs.insert id doc, scripts := fill st.backend st.scripts id }

def saveJobScript (st : Store) (id script : String) : Store :=
  { st with jobs := fill st.backend st.jobs id, scripts := st.scripts.insert id script }

def deleteJob (st : Store) (id : String) : Store :=
  { st with jobs := st.jobs.erase id, scripts := st.scripts.erase id }

/-- `os.Remove` of a job's `.SC` file, which a database does not have. -/
def removeScriptFile (st : Store) (id : String) : Store :=
  { st with scripts := if st.backend = .file then st.scripts.erase id else st.scripts }

/-- `os.Remove` of a queue's file. -/
def removeQueueFile (st : Store) (name : String) : Store :=
  { st with queues := if st.backend = .file then st.queues.erase name else st.queues }

end Store

/-- One `key=value` line of a document. -/
abbrev Line := String × String

def Line.render (line : Line) : String := line.1 ++ "=" ++ line.2 ++ "\n"

def document (lines : List Line) : String := String.join (lines.map Line.render)

/-- The `key=value` lines a reader finds in a document. -/
def documentLines (doc : String) : List Line :=
  (Text.split '\n' doc).filterMap fun line => Text.cutKey '=' (Text.trimSpace line)

namespace Job

def timeLine (key : String) (t : Time) : List Line :=
  if Time.isZero t then [] else [(key, itoa (Time.unix t))]

def textLine (key value : String) : List Line := if value = "" then [] else [(key, value)]

def requestLines (j : Job) : List Line :=
  (j.resourceReq.keys.insertionSort (· ≤ ·)).map fun k =>
    ("req." ++ k, (j.resourceReq.lookup k).getD "")

/-- The lines every job has, after that of its state. -/
def fieldLines (j : Job) : List Line :=
  [("substate", itoa j.substate), ("queue", j.queue), ("owner", j.owner),
    ("name", j.text .name), ("euser", j.text .euser), ("egroup", j.text .egroup),
    ("exec_host", j.execHost), ("stdout", j.text .stdoutPath), ("stderr", j.text .stderrPath),
    ("exec_port", itoa j.execPort), ("session", itoa j.sessionID),
    ("exit_status", itoa j.exitStatus), ("priority", itoa j.priority),
    ("node_count", itoa j.nodeCount), ("task_count", itoa j.taskCount)]

def timeLines (j : Job) : List Line :=
  timeLine "comp_time" j.compTime ++ timeLine "start_time" j.startTime ++
    timeLine "qtime" j.queueTime ++ timeLine "create_time" j.createTime

def provisionLines (j : Job) : List Line :=
  textLine "provision_vm" j.provisionVM ++ textLine "provision_node" j.provisionNode

/-- `serializeJob` -/
def lines (j : Job) : List Line :=
  ("state", itoa j.state.code) ::
    (j.fieldLines ++ j.timeLines ++ j.requestLines ++ j.provisionLines)

def serialize (j : Job) : String := document j.lines

def scanState (old : JobState) (val : String) : JobState := ((scanInt val).map .ofCode).getD old

def readTime (old : Time) (val : String) : Time := ((parseInt val).map Time.ofUnix).getD old

/-- The effect of one line on the job `deserializeJob` builds. -/
def readLine (j : Job) : Line → Job
  | ("state", val) => { j with state := scanState j.state val }
  | ("substate", val) => { j with substate := scanInto j.substate val }
  | ("queue", val) => { j with queue := val }
  | ("owner", val) => { j with owner := val }
  | ("name", val) => j.setText .name val
  | ("euser", val) => j.setText .euser val
  | ("egroup", val) => j.setText .egroup val
  | ("exec_host", val) => { j with execHost := val }
  | ("exec_port", val) => { j with execPort := scanInto j.execPort val }
  | ("session", val) => { j with sessionID := scanInto j.sessionID val }
  | ("exit_status", val) => { j with exitStatus := scanInto j.exitStatus val }
  | ("priority", val) => { j with priority := scanInto j.priority val }
  | ("node_count", val) => { j with nodeCount := scanInto j.nodeCount val }
  | ("task_count", val) => { j with taskCount := scanInto j.taskCount val }
  | ("comp_time", val) => { j with compTime := readTime j.compTime val }
  | ("start_time", val) => { j with startTime := readTime j.startTime val }
  | ("qtime", val) => { j with queueTime := readTime j.queueTime val }
  | ("create_time", val) => { j with createTime := readTime j.createTime val }
  | ("provision_vm", val) => { j with provisionVM := val }
  | ("provision_node", val) => { j with provisionNode := val }
  | (key, val) =>
    match Text.afterPrefix "req." key with
    | some resc => { j with resourceReq := j.resourceReq.insert resc val }
    | none => j

/-- `deserializeJob` -/
def deserialize (doc serverName : String) (now : Time) : Job :=
  (documentLines doc).foldl readLine (newJob "" serverName now)

end Job

namespace Queue

def numberLine (q : Queue) (f : QueueNumber) : List Line :=
  if 0 < q.number f then [(f.attr, itoa (q.number f))] else []

def textLine (q : Queue) (f : QueueText) : List Line :=
  if q.text f = "" then [] else [(f.attr, q.text f)]

def listLine (q : Queue) (f : QueueList) : List Line :=
  if q.list f = [] then [] else [(f.attr, Text.join "," (q.list f))]

def flagLine (q : Queue) (f : QueueFlag) (key : String) : List Line :=
  if q.flag f then [(key, "True")] else []

def resourceLines (q : Queue) (order : RangeOrder) (f : QueueLimits) : List Line :=
  ((q.resource f).range order).map fun k =>
    (f.attr ++ "." ++ k, ((q.resource f).lookup k).getD "")

/-- `qAttrTrue` -/
def attrTrue (v : String) : Bool :=
  Text.toLower (Text.trimSpace v) ∈ ["true", "1", "yes", "y"]

def fromRouteOnly (q : Queue) : Bool := attrTrue ((q.attrs.lookup "from_route_only").getD "")

def boolText (b : Bool) : String := if b then "True" else "False"

/-- `saveQueue`. The access policy and the host list are written only inside the test
for a non-empty `acl_hosts`. -/
def lines (q : Queue) (order : RangeOrder) : List Line :=
  [("queue_type", if q.type = .execution then "Execution" else "Route"),
    ("enabled", boolText (q.flag .enabled)), ("started", boolText (q.flag .started))] ++
  q.textLine .cloudProvider ++ q.textLine .cloudVMSKU ++ q.numberLine .cloudMinNodes ++
  q.numberLine .cloudMaxNodes ++ q.numberLine .cloudIdleTime ++
  q.numberLine .cloudProvisionTimeout ++ q.textLine .cloudReclaim ++ q.textLine .cloudSubnetID ++
  q.textLine .cloudImageID ++ q.numberLine .cloudDiskSize ++ q.textLine .cloudDiskType ++
  q.textLine .cloudSSHKey ++ q.textLine .cloudLocation ++ q.textLine .cloudRgName ++
  q.numberLine .cloudCooldown ++ q.numberLine .cloudScaleHeadroom ++
  q.numberLine .cloudDrainTimeout ++
  q.numberLine .maxUserJobs ++ q.numberLine .maxUserRun ++
  q.flagLine .aclUserEnabled "acl_user_enable" ++ q.listLine .aclUsers ++
  q.flagLine .aclGroupEnabled "acl_group_enable" ++ q.listLine .aclGroups ++
  q.flagLine .aclHostEnabled "acl_host_enable" ++ q.listLine .aclHosts ++
  (if q.list .aclHosts = [] then [] else q.textLine .naccessPolicy ++ q.listLine .hostList) ++
  q.listLine .routeDestin ++
  (if q.fromRouteOnly then [("from_route_only", "True")] else []) ++
  q.numberLine .maxJobs ++ q.numberLine .maxRun ++
  (if q.number .priority = 0 then [] else [("Priority", itoa (q.number .priority))]) ++
  q.listLine .disallowedTypes ++
  q.resourceLines order .min ++ q.resourceLines order .max ++ q.resourceLines order .dflt

def serialize (q : Queue) (order : RangeOrder) : String := document (q.lines order)

/-- The line of a resource limit: its table and the resource. -/
def limitOf (key : String) : Option (QueueLimits × String) :=
  [QueueLimits.min, .max, .dflt].findSome? fun f =>
    (Text.afterPrefix (f.attr ++ ".") key).map (f, ·)

/-- How a text is normalised when it is read back. -/
def recoveredText (f : QueueText) (val : String) : String :=
  match f with
  | .cloudProvider | .cloudReclaim => Text.toLower val
  | _ => val

/-- The effect of one line on the queue `recoverQueues` builds. -/
def readLine (q : Queue) (line : Line) : Queue :=
  let (key, val) := line
  match limitOf key, QueueNumber.all.find? (·.attr = key), QueueText.all.find? (·.attr = key),
    allLists.find? (·.attr = key) with
  | some (f, resc), _, _, _ => q.setResource f resc val
  | none, some f, _, _ => q.setNumber f (scanInto (q.number f) val)
  | none, none, some f, _ => q.setText f (recoveredText f val)
  | none, none, none, some f => q.setList f (parseList val)
  | none, none, none, none =>
    match key with
    | "queue_type" => if val = "Route" then { q with type := .route } else q
    | "enabled" => q.setFlag .enabled (val = "True")
    | "started" => q.setFlag .started (val = "True")
    | "acl_user_enable" => q.setFlag .aclUserEnabled (val = "True")
    | "acl_group_enable" => q.setFlag .aclGroupEnabled (val = "True")
    | "acl_host_enable" => q.setFlag .aclHostEnabled (val = "True")
    | "from_route_only" => q.setAttr "from_route_only" val
    | _ => q

/-- The queue `recoverQueues` builds from one document, in either format. The flags of
the XML format can only be set, and a new queue has them set. -/
def deserialize (doc : String) : Queue :=
  if Text.contains doc "<queue>" then
    let type := if Config.extractXMLTag doc "queue_type" = "Execution" then .execution else .route
    { type }
  else (documentLines doc).foldl readLine {}

end Queue

namespace Node

/-- The line `saveNodes` writes for a node. -/
def line (name : String) (n : Node) (order : RangeOrder) : String :=
  name ++ " np=" ++ itoa n.numProcs ++
    (if n.queue = "" then "" else " queue=" ++ n.queue) ++
    (if n.dynamic then " dynamic=1" else "") ++
    (if n.groups = [] then "" else " groups=" ++ Text.join "," n.groups) ++
    String.join ((n.gres.range order).map fun k =>
      " gres." ++ k ++ "=" ++ itoa ((n.gres.lookup k).getD 0)) ++ "\n"

/-- The last of the fields with that prefix, without it. -/
def lastWith (mark : String) (parts : List String) : Option String :=
  (parts.filterMap (Text.afterPrefix mark)).getLast?

/-- The processor count the `np=` fields of a line give. -/
def lineProcs (parts : List String) : Int :=
  (parts.filterMap (Text.afterPrefix "np=")).foldl scanInto 1

/-- A generic resource of a line. -/
def lineGRes (part : String) : Option (String × Int) := do
  let body ← Text.afterPrefix "gres." part
  let (name, count) ← Text.cut '=' body
  let v ← parseInt count
  if 0 ≤ v then some (name, v) else none

/-- What the fields after the name change on the registered node. -/
def applyLine (n : Node) (parts : List String) : Node :=
  let groups := ((lastWith "groups=" parts).map parseList).getD []
  let queue := (lastWith "queue=" parts).getD ""
  { n with
    queue := if queue = "" then n.queue else queue
    gres := (parts.filterMap lineGRes).foldl (fun m (k, v) => m.insert k v) n.gres
    groups := if groups = [] then n.groups else groups
    dynamic := n.dynamic || "dynamic=1" ∈ parts }

end Node

namespace NodeManager

/-- The inventory `saveNodes` writes. -/
def serialize (m : NodeManager) (order : RangeOrder) : String :=
  String.join ((m.range order).map fun name =>
    (m.lookup name).elim "" fun n => n.line name order)

/-- The effect of one line of the inventory. -/
def readLine (m : NodeManager) (line : String) : NodeManager :=
  match Text.fields line with
  | [] => m
  | name :: parts =>
    if (Text.afterPrefix "#" name).isSome then m
    else (m.addNode name (Node.lineProcs parts)).onNode name (·.applyLine parts)

def recoverNodes (m : NodeManager) (doc : String) : NodeManager :=
  (Text.split '\n' doc).foldl readLine m

end NodeManager

end OpenTorque.Pbs
