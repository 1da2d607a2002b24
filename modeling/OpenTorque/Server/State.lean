import OpenTorque.Server.Store

/-! The state of the server, the outcome of a request and the reading of a job's
resource request. A handler is one atomic step on this state. -/
namespace OpenTorque.Pbs

/-- The loops over maps whose order the runtime chooses. -/
inductive RangeSite where
  | executionQueue | anyQueue | shortID | jobs | nodes | gres | resources
  deriving DecidableEq, Repr

/-- What a step reads from outside: the clock, the host's name and the loop orders. -/
structure Env where
  now : Time
  hostname : String := "server"
  order : RangeSite → RangeOrder := fun _ => .listed

/-- A goroutine `dispatchJobToMOM` that has not ended; it holds pointers to its job
and its node, which is `detached` once the node has left the manager. -/
structure Dispatch where
  job : String
  node : String
  detached : Bool := false
  deriving DecidableEq, Repr

structure Server where
  cfg : Config
  jobMgr : JobManager
  queueMgr : QueueManager := ∅
  nodeMgr : NodeManager := ∅
  store : Store := {}
  haEnabled : Bool := false
  haActive : Bool := true
  authMap : Assoc String := ∅
  dispatches : List Dispatch := []

/-- A server that has just been created over a store. -/
def Server.new (serverName : String) (store : Store) : Server where
  cfg := .newConfig serverName
  jobMgr := { serverName }
  store := store

structure StatusObject where
  name : String
  attrs : List Attr
  deriving DecidableEq, Repr

inductive Reply where
  | ok
  | error (code : Nat)
  | jobID (choice : Nat) (id : String)
  | text (text : String)
  | status (objects : List StatusObject)
  | silent
  deriving DecidableEq, Repr

/-- The error codes of the protocol that handlers send. -/
def pbseUnkjobid : Nat := 15001
def pbseBadReq : Nat := 15004
def pbseQueNoDeflt : Nat := 15005
def pbseUnkQue : Nat := 15006
def pbsePerm : Nat := 15007
def pbseBadCred : Nat := 15021
def pbseUnkNode : Nat := 15039

def replyChoiceQueue : Nat := 2
def replyChoiceRdytoCom : Nat := 3
def replyChoiceCommit : Nat := 4

/-- A `DeleteJob` request to the MOM at an address. -/
structure DeleteMessage where
  host : String
  port : Int
  job : String
  deriving DecidableEq, Repr

/-- The outcome of a handler: the new state, the reply, whether the connection goes on
and the requests sent to MOMs. -/
structure Handled where
  server : Server
  reply : Reply
  keepOpen : Bool := true
  sent : List DeleteMessage := []

namespace Server

def answer (s : Server) (reply : Reply) : Handled := { server := s, reply }
def accept (s : Server) : Handled := s.answer .ok
def refuse (s : Server) (code : Nat) : Handled := s.answer (.error code)

def reject (s : Server) (code : Nat) : Handled :=
  { server := s, reply := .error code, keepOpen := false }

def hang (s : Server) : Handled := { server := s, reply := .silent, keepOpen := false }

@[simps]
def onJobs (s : Server) (change : JobManager → JobManager) : Server :=
  { s with jobMgr := change s.jobMgr }

@[simps]
def onQueues (s : Server) (change : QueueManager → QueueManager) : Server :=
  { s with queueMgr := change s.queueMgr }

@[simps]
def onNodes (s : Server) (change : NodeManager → NodeManager) : Server :=
  { s with nodeMgr := change s.nodeMgr }

@[simps]
def onStore (s : Server) (change : Store → Store) : Server := { s with store := change s.store }

@[simps]
def onConfig (s : Server) (change : Config → Config) : Server := { s with cfg := change s.cfg }

@[simps]
def spawn (s : Server) (tasks : List Dispatch) : Server :=
  { s with dispatches := s.dispatches ++ tasks }

def getJob (s : Server) (env : Env) (id : String) : Option (String × Job) :=
  s.jobMgr.getJob (env.order .shortID) id

abbrev putJob (s : Server) (id : String) (j : Job) : Server := s.onJobs (·.put id j)

abbrev updateJobState (s : Server) (env : Env) (id : String) (state : JobState) : Server :=
  s.onJobs (·.updateJobState env.now id state)

abbrev removeJob (s : Server) (id : String) : Server := s.onJobs (·.removeJob id)

/-- `saveJob` on the job object of that id. -/
abbrev saveJob (s : Server) (id : String) (j : Job) : Server := s.onStore (·.saveJob id j.serialize)

abbrev onQueue (s : Server) (name : String) (change : Queue → Queue) : Server :=
  s.onQueues (·.onQueue name change)

abbrev onNode (s : Server) (name : String) (change : Node → Node) : Server :=
  s.onNodes (·.onNode name change)

def allJobs (s : Server) (env : Env) : List String := s.jobMgr.jobs.range (env.order .jobs)

def allNodes (s : Server) (env : Env) : List String := s.nodeMgr.range (env.order .nodes)

end Server

/-- `parseNodeSelectSpec`: nodes and processors per node of the first chunk. -/
def parseNodeSelectSpec (spec : String) : Int × Int :=
  match Text.split ':' (Text.before '+' (Text.trimSpace spec)) with
  | [] => (1, 1)
  | count :: options =>
    let nodes := ((parseInt (Text.trimSpace count)).filter (0 < ·)).getD 1
    let ppns := options.filterMap fun option => do
      let value ← Text.afterPrefix "ppn=" (Text.trimSpace option)
      (parseInt (Text.trimSpace value)).filter (0 < ·)
    (nodes, ppns.getLastD 1)

namespace Job

def resource (j : Job) (name : String) : String := (j.resourceReq.lookup name).getD ""

/-- `jobRequestedCPUs` -/
def requestedCPUs (j : Job) : Int :=
  if j.resource "nodes" ≠ "" then (parseNodeSelectSpec (j.resource "nodes")).2
  else ((parseInt (j.resource "ncpus")).filter (0 < ·)).getD 1

/-- `jobNodeRequest` -/
def nodeRequest (j : Job) : Int × Int :=
  let spec := if j.resource "nodes" = "" then j.resource "select" else j.resource "nodes"
  if spec = "" then (1, j.requestedCPUs) else parseNodeSelectSpec spec

def builtinResources : List String :=
  ["ncpus", "mem", "walltime", "nodes", "select", "ppn", "host", "feature", "features",
    "properties"]

/-- `jobGenericReqs` -/
def genericReqs (j : Job) : List (String × Int) :=
  j.resourceReq.entries.filterMap fun ⟨name, v⟩ =>
    if name ∈ builtinResources then none
    else ((parseInt v).filter (0 < ·)).map (name, ·)

/-- The node names in an `exec_host`, `"name/slot+name/slot"`. -/
def hostNames (execHost : String) : List String :=
  (Text.split '+' execHost).map (Text.before '/')

end Job

/-- A positive number that an `int` can hold. -/
def IsCount (n : Int) : Prop := 0 < n ∧ n ≤ maxInt

instance (n : Int) : Decidable (IsCount n) := inferInstanceAs (Decidable (_ ∧ _))

theorem isCount_getD {read : Option Int} (all : ∀ n, read = some n → IsCount n) :
    IsCount (read.getD 1) := by
  cases read with
  | none => decide
  | some n => exact all n rfl

theorem isCount_parseInt {text : String} {n : Int}
    (read : (parseInt text).filter (0 < ·) = some n) : IsCount n := by
  obtain ⟨parsed, positive⟩ := Option.filter_eq_some_iff.mp read
  exact ⟨by simpa using positive, (parseInt_fits parsed).2⟩

theorem parseNodeSelectSpec_isCount (spec : String) : IsCount (parseNodeSelectSpec spec).2 := by
  rw [parseNodeSelectSpec]
  split
  · decide
  · simp only [List.getLastD_eq_getLast?]
    refine isCount_getD fun n last => ?_
    obtain ⟨option, -, parsed⟩ := List.mem_filterMap.mp (List.mem_of_getLast? last)
    obtain ⟨value, -, kept⟩ := Option.bind_eq_some_iff.mp parsed
    exact isCount_parseInt kept

namespace Job

theorem requestedCPUs_isCount (j : Job) : IsCount j.requestedCPUs := by
  rw [requestedCPUs]
  split
  · exact parseNodeSelectSpec_isCount _
  · exact isCount_getD fun n read => isCount_parseInt read

theorem nodeRequest_isCount (j : Job) : IsCount j.nodeRequest.2 := by
  rw [nodeRequest]
  generalize (if j.resource "nodes" = "" then _ else _ : String) = spec
  by_cases empty : spec = ""
  · simpa [empty] using j.requestedCPUs_isCount
  · simpa [empty] using parseNodeSelectSpec_isCount spec

section Request
variable {j k : Job} (same : j.resourceReq = k.resourceReq)
include same

theorem resource_congr : j.resource = k.resource := by
  funext name
  rw [resource, resource, same]

theorem requestedCPUs_congr : j.requestedCPUs = k.requestedCPUs := by
  rw [requestedCPUs, requestedCPUs, resource_congr same]

theorem nodeRequest_congr : j.nodeRequest = k.nodeRequest := by
  rw [nodeRequest, nodeRequest, requestedCPUs_congr same, resource_congr same]

end Request

end Job

end OpenTorque.Pbs
