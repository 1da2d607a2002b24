import Mathlib.Data.List.Dedup
import OpenTorque.Sched.Snapshot
import OpenTorque.Server.Step

/-! One scheduling cycle: the status replies are read, the jobs are sorted and visited,
and each job that finds a node is started by a `RunJob` request to the server. -/
namespace OpenTorque.Sched
open Pbs (Attr StatusObject Reply Server Env Request)

/-- The values of `sort_by`; any other text is read as `fifo`. -/
inductive SortBy where
  | fifo | shortestJobFirst | longestJobFirst | highPriorityFirst | lowPriorityFirst
  | smallestMemoryFirst | largestMemoryFirst | fairShare
  deriving DecidableEq, Repr

/-- The fields of `sched_config` that a cycle reads; durations are nanoseconds. -/
structure Config where
  strictFIFO : Bool := false
  backfill : Bool := true
  roundRobin : Bool := false
  byQueue : Bool := true
  fairShare : Bool := false
  helpStarvingJobs : Bool := true
  sortQueues : Bool := true
  loadBalancing : Bool := false
  sortBy : SortBy := .fifo
  maxStarve : Int := 24 * 3600 * Time.second
  halfLife : Int := 24 * 3600 * Time.second
  schedulerInterval : Int := 10
  defaultQueueDepth : Int := 100
  schedMaxJobStart : Int := 0
  maxSchedTime : Int := 2

/-- `sort.Slice`: some arrangement of the list. -/
structure SliceSort where
  sort : {α : Type} → (α → α → Bool) → List α → List α
  perm : ∀ {α : Type} (less : α → α → Bool) (l : List α), (sort less l).Perm l

/-- One way to sort, stable as `sort.SliceStable` is: an element is never moved past an
equal one. -/
def stableSort {α : Type} (less : α → α → Bool) (l : List α) : List α :=
  l.insertionSort fun a b => less b a = false

def SliceSort.stable : SliceSort := ⟨stableSort, fun _ _ => List.perm_insertionSort _ _⟩

/-- What a cycle reads from outside: the clock, the time that has passed before each
attempt, the environments in which the server handles its requests, how lists are
sorted and in which order the maps are visited. -/
structure View where
  now : Time
  elapsed : Nat → Int
  queueEnv : Env
  nodeEnv : Env
  jobEnv : Env
  runEnv : Nat → Env
  slices : SliceSort
  pendingOrder : RangeOrder
  aliveOrder : RangeOrder

/-- A cycle at one instant that visits the maps as they are listed. -/
def View.at (now : Time) : View where
  now := now
  elapsed _ := 0
  queueEnv := { now }
  nodeEnv := { now }
  jobEnv := { now }
  runEnv _ := { now }
  slices := .stable
  pendingOrder := .listed
  aliveOrder := .listed

structure ServerInfo (F : Type) where
  queues : List QueueInfo
  nodes : List (NodeInfo F)

structure CapacityEvent where
  queue : String
  cloud : CloudSpec
  jobs : List String := []
  cores : Int := 0
  nodes : Int := 0
  blocked : Int := 0
  deriving DecidableEq, Repr

structure CycleResult where
  dispatched : Nat := 0
  capacityEvents : List CapacityEvent := []
  freeNodes : List String := []
  idleNodes : List String := []
  queuedByQueue : Assoc (List String) := ∅
  aliveJobs : List String := []

section Query
variable {F : Type} [GoFloat F]

/-- The objects of a status reply; any other reply is an error of the client. -/
def statusObjects : Reply → Option (List StatusObject)
  | .status objects => some objects
  | _ => none

/-- The queued jobs of each queue, in the order of the reply. -/
def jobsOfQueue (objects : List StatusObject) (queue : String) : List JobInfo :=
  (objects.map parseJobInfo).filter fun j => j.state = "Q" && j.queue = queue

def sortedQueues (cfg : Config) (v : View) (queues : List QueueInfo) : List QueueInfo :=
  if cfg.sortQueues then v.slices.sort (fun a b => b.priority < a.priority) queues else queues

/-- `queryServer`; asking for the queues lets the server refresh their counters. -/
def queryServer (cfg : Config) (v : View) (s : Server) : Server × Option (ServerInfo F) :=
  let asked := s.handle v.queueEnv (.statusQueue "")
  let s := asked.server
  (s, do
    let queueObjs ← statusObjects asked.reply
    let nodeObjs ← statusObjects (s.handle v.nodeEnv (.statusNode "")).reply
    let jobObjs ← statusObjects (s.handle v.jobEnv (.statusJob "")).reply
    let queues := queueObjs.map fun obj =>
      { parseQueueInfo obj with jobs := jobsOfQueue jobObjs obj.name }
    pure { queues := sortedQueues cfg v queues, nodes := nodeObjs.map parseNodeInfo })

end Query

section Order
variable {F : Type} [GoFloat F]

/-- The comparator of `sort_by`. -/
def before (sortBy : SortBy) (usage : Assoc F) (a b : JobInfo) : Bool :=
  match sortBy with
  | .shortestJobFirst => a.walltime < b.walltime
  | .longestJobFirst => b.walltime < a.walltime
  | .highPriorityFirst => b.priority < a.priority
  | .lowPriorityFirst => a.priority < b.priority
  | .smallestMemoryFirst => a.memReq < b.memReq
  | .largestMemoryFirst => b.memReq < a.memReq
  | .fairShare =>
    GoFloat.less ((usage.lookup a.owner).getD GoFloat.zero)
      ((usage.lookup b.owner).getD GoFloat.zero)
  | .fifo => a.queueTime < b.queueTime

def starving (cfg : Config) (now : Time) (j : JobInfo) : Bool :=
  !Time.isZero j.queueTime && j.queueTime < now - cfg.maxStarve

def sortJobs (cfg : Config) (v : View) (usage : Assoc F) (jobs : List JobInfo) : List JobInfo :=
  let sorted := v.slices.sort (before cfg.sortBy usage) jobs
  if cfg.helpStarvingJobs && 0 < cfg.maxStarve then
    sorted.filter (starving cfg v.now) ++ sorted.filter (!starving cfg v.now ·)
  else sorted

/-- The usage after its decay at the start of a cycle. -/
def decayed (cfg : Config) (usage : Assoc F) : Assoc F :=
  if cfg.fairShare && 0 < cfg.halfLife then
    usage.keys.foldl (fun m user => m.insert user (GoFloat.decay
      ((usage.lookup user).getD GoFloat.zero) (wrap64 (cfg.schedulerInterval * Time.second))
      cfg.halfLife))
      usage
  else usage

/-- `initCycle` on the queues. -/
def sortedByJob (cfg : Config) (v : View) (usage : Assoc F) (queues : List QueueInfo) :
    List QueueInfo :=
  queues.map fun q => { q with jobs := sortJobs cfg v usage q.jobs }

end Order

/-! The iterators. A queue is kept with the jobs that are still to come. -/

inductive Mode where
  | roundRobin | byQueue | flat
  deriving DecidableEq, Repr

def Config.mode (cfg : Config) : Mode :=
  if cfg.roundRobin then .roundRobin else if cfg.byQueue then .byQueue else .flat

def isRouteQueue (q : QueueInfo) : Bool :=
  Text.toLower (Text.trimSpace q.type) ∈ ["route", "r"]

def QueueInfo.open (q : QueueInfo) : Bool := q.enabled && q.started && !isRouteQueue q

structure JobIterator where
  mode : Mode
  /-- The queues with their remaining jobs; the modes other than round-robin drop the
  queues they have left behind. -/
  queues : List QueueInfo
  qIdx : Nat := 0

def newJobIterator (cfg : Config) (queues : List QueueInfo) : JobIterator :=
  { mode := cfg.mode, queues }

namespace JobIterator

/-- The next job of a queue that is not marked, and the queue without the jobs passed. -/
def take (q : QueueInfo) : Option (JobInfo × QueueInfo) :=
  match q.jobs.dropWhile (·.canNotRun) with
  | [] => none
  | j :: rest => some (j, { q with jobs := rest })

/-- `nextByQueue` and `nextFlat`, which have the same body. -/
def nextInOrder : List QueueInfo → Option JobInfo × List QueueInfo
  | [] => (none, [])
  | q :: queues =>
    if q.open then
      match take q with
      | some (j, q) => (some j, q :: queues)
      | none => nextInOrder queues
    else nextInOrder queues

/-- One attempt of a round: at most one job of the queue whose turn it is. -/
def visit (queues : List QueueInfo) (i : Nat) : Option JobInfo × List QueueInfo :=
  match queues[i]? with
  | none => (none, queues)
  | some q =>
    if q.open then
      match q.jobs with
      | [] => (none, queues)
      | j :: rest =>
        (if j.canNotRun then none else some j, queues.set i { q with jobs := rest })
    else (none, queues)

/-- The attempts of one call of `nextRoundRobin`. -/
def round : Nat → List QueueInfo × Nat → Option JobInfo × List QueueInfo × Nat
  | 0, (queues, qIdx) => (none, queues, qIdx)
  | attempts + 1, (queues, qIdx) =>
    match visit queues (qIdx % queues.length) with
    | (some j, queues) => (some j, queues, qIdx + 1)
    | (none, queues) => round attempts (queues, qIdx + 1)

/-- `nextRoundRobin`, which calls itself until a round finds a job or no queue has any
left; `none` if it has not come back after that many calls. -/
def nextRoundRobin : Nat → List QueueInfo × Nat → Option (Option JobInfo × List QueueInfo × Nat)
  | 0, _ => none
  | fuel + 1, (queues, qIdx) =>
    match round queues.length (queues, qIdx) with
    | (some j, rest) => some (some j, rest)
    | (none, queues, qIdx) =>
      if queues.all (·.jobs.isEmpty) then some (none, queues, qIdx)
      else nextRoundRobin fuel (queues, qIdx)

def next (fuel : Nat) (it : JobIterator) : Option (Option JobInfo × JobIterator) :=
  match it.mode with
  | .roundRobin =>
    (nextRoundRobin fuel (it.queues, it.qIdx)).map fun (job, queues, qIdx) =>
      (job, { it with queues, qIdx })
  | .byQueue | .flat =>
    let (job, queues) := nextInOrder it.queues
    some (job, { it with queues })

end JobIterator

/-! The choice of a node. -/

def blockedStates : List String := ["drain", "excl", "exclusive", "offline", "down", "busy"]

/-- The loop of `nodeSchedulable` over the flags of a state. -/
def schedulableFlags : List String → Bool
  | [] => false
  | flag :: flags =>
    if Text.trimSpace flag ∈ blockedStates then false
    else if Text.trimSpace flag = "job-exclusive" then true
    else schedulableFlags flags

section Choice
variable {F : Type}

def nodeSchedulable (n : NodeInfo F) : Bool :=
  n.state = "free" || schedulableFlags (Text.split ',' n.state)

def nodeHasGroup (n : NodeInfo F) (g : String) : Bool :=
  n.groups.any fun group => Text.equalFold (Text.trimSpace group) g

def nodeHasAllFeatures (n : NodeInfo F) (want : List String) : Bool :=
  want.all fun f => n.properties.any (Text.equalFold · f)

def nodeHasGRes (n : NodeInfo F) (want : Assoc Int) : Bool :=
  want.entries.all fun ⟨name, req⟩ =>
    req ≤ wrap64 ((n.gresTotal.lookup name).getD 0 - (n.gresUsed.lookup name).getD 0)

def hostListed (n : NodeInfo F) (entry : String) : Bool :=
  match Text.afterPrefix "@" (Text.trimSpace entry) with
  | some group => nodeHasGroup n group
  | none => Text.trimSpace entry ≠ "" && Text.equalFold n.name (Text.trimSpace entry)

def exclusivePolicies : List String :=
  ["exclusive", "singleuser", "exclhost", "exec_host_exclusive"]

def queueNodeOK (q : Option QueueInfo) (n : NodeInfo F) : Bool :=
  match q with
  | none => true
  | some q =>
    (q.hostList = [] || q.hostList.any (hostListed n)) &&
      (q.naccessPolicy ∉ exclusivePolicies || n.jobs = [])

def queueForJob (queues : List QueueInfo) (name : String) : Option QueueInfo :=
  queues.find? (·.name = name)

/-- Every constraint on a node but that on its processors. -/
def admissible (queues : List QueueInfo) (j : JobInfo) (n : NodeInfo F) : Bool :=
  nodeSchedulable n && (j.host = "" || Text.equalFold n.name j.host) &&
    (j.features = [] || nodeHasAllFeatures n j.features) &&
    (j.hostGroup = "" || nodeHasGroup n j.hostGroup) &&
    queueNodeOK (queueForJob queues j.queue) n && nodeHasGRes n j.gres

def countSchedulableForJob (info : ServerInfo F) (j : JobInfo) (reqCPUs : Int) : Nat :=
  info.nodes.countP fun n => admissible info.queues j n && reqCPUs ≤ n.freeCPUs

/-- The processors `findNodeForJob` asks for on its node. -/
def JobInfo.demand (j : JobInfo) : Int := if j.cpuReq = 0 then 1 else j.cpuReq

/-- A job of several nodes for which there are too few. -/
def tooFewNodes (info : ServerInfo F) (j : JobInfo) : Bool :=
  1 < j.nodes &&
    (countSchedulableForJob info j (if j.ppn = 0 then j.demand else j.ppn) : Int) < j.nodes

variable [GoFloat F]

/-- The comparator of the candidates: static nodes first, then the configured rule. -/
def preferred (cfg : Config) (a b : NodeInfo F) : Bool :=
  if a.dynamic ≠ b.dynamic then !a.dynamic
  else if cfg.loadBalancing then GoFloat.less a.loadAvg b.loadAvg
  else a.freeCPUs < b.freeCPUs

def candidates (info : ServerInfo F) (j : JobInfo) : List (NodeInfo F) :=
  info.nodes.filter fun n => admissible info.queues j n && j.demand ≤ n.freeCPUs

def findNodeForJob (cfg : Config) (info : ServerInfo F) (j : JobInfo) : Option (NodeInfo F) :=
  if tooFewNodes info j then none
  else (stableSort (preferred cfg) (candidates info j)).head?

end Choice

/-! The main loop. -/

section Loop
variable {F : Type} [GoFloat F]

variable {J : Type}

/-- The variables of the main loop, with the server it talks to. -/
structure Progress (F : Type) (J : Type := JobIterator) where
  server : Server
  nodes : List (NodeInfo F)
  jobs : J
  usage : Assoc F
  dispatched : Nat := 0
  pendingCap : Assoc CapacityEvent := ∅

/-- How one turn of the loop ends. -/
inductive Turn (F : Type) (J : Type := JobIterator) where
  | go (p : Progress F J)
  | stop (p : Progress F J)

def Turn.progress : Turn F J → Progress F J
  | .go p | .stop p => p

/-- A job of a cloud queue that found no node adds to the queue's demand. -/
def CapacityEvent.block (ev : CapacityEvent) (j : JobInfo) : CapacityEvent :=
  { ev with cores := wrap64 (ev.cores + j.demand), blocked := ev.blocked + 1,
            jobs := ev.jobs ++ [j.id] }

def addDemand (pending : Assoc CapacityEvent) (q : QueueInfo) (j : JobInfo) :
    Assoc CapacityEvent :=
  pending.insert q.name
    (((pending.lookup q.name).getD { queue := q.name, cloud := q.cloud }).block j)

def Config.strictStop (cfg : Config) : Bool := cfg.strictFIFO && !cfg.backfill

/-- What a started job takes from the scheduler's record of its node. -/
def NodeInfo.debit (n : NodeInfo F) (j : JobInfo) : NodeInfo F :=
  { n with
    freeCPUs := wrap64 (n.freeCPUs - j.demand)
    gresUsed := j.gres.entries.foldl
      (fun m ⟨name, req⟩ => m.insert name (wrap64 ((m.lookup name).getD 0 + req))) n.gresUsed
    jobs := n.jobs ++ [j.id] }

/-- The job found no node. Its mark `CanNotRun` is left to `Cursor.consider`. -/
def blocked (cfg : Config) (queues : List QueueInfo) (p : Progress F J) (j : JobInfo) : Turn F J :=
  match (queueForJob queues j.queue).filter (·.cloudBacked) with
  | some q => .go { p with pendingCap := addDemand p.pendingCap q j }
  | none => if cfg.strictStop then .stop p else .go p

def charged (usage : Assoc F) (owner : String) : Assoc F :=
  usage.insert owner (GoFloat.incr ((usage.lookup owner).getD GoFloat.zero))

def started (cfg : Config) (limited : Bool) (p : Progress F J) (name : String) (j : JobInfo) :
    Turn F J :=
  let p := { p with
    nodes := p.nodes.map fun n => if n.name = name then n.debit j else n
    dispatched := p.dispatched + 1 }
  if limited && 0 < cfg.schedMaxJobStart && cfg.schedMaxJobStart ≤ p.dispatched then .stop p
  else if cfg.fairShare then .go { p with usage := charged p.usage j.owner }
  else .go p

/-- The part of a turn for one job. -/
def consider (cfg : Config) (limited : Bool) (queues : List QueueInfo) (env : Env)
    (p : Progress F J) (j : JobInfo) : Turn F J :=
  match findNodeForJob cfg { queues, nodes := p.nodes } j with
  | none => blocked cfg queues p j
  | some node =>
    let answered := p.server.handle env (.runJob j.id (node.name ++ "/0"))
    let p := { p with server := answered.server }
    if answered.reply = .ok then started cfg limited p node.name j else .go p

/-- A limited cycle has used up its attempts or its time. -/
def exhausted (cfg : Config) (limited : Bool) (v : View) (attempt : Nat) : Bool :=
  limited && ((0 < cfg.defaultQueueDepth && cfg.defaultQueueDepth ≤ attempt) ||
    (0 < cfg.maxSchedTime && wrap64 (cfg.maxSchedTime * Time.second) ≤ v.elapsed attempt))

/-- One turn of the loop; `none` if the iterator does not come back. -/
def turn (cfg : Config) (limited : Bool) (v : View) (queues : List QueueInfo) (fuel attempt : Nat)
    (p : Progress F) : Option (Turn F) :=
  if exhausted cfg limited v attempt then some (.stop p)
  else
    (p.jobs.next fuel).map fun (job, jobs) =>
      match job with
      | none => .stop { p with jobs }
      | some j => consider cfg limited queues (v.runEnv attempt) { p with jobs } j

/-- The main loop, for at most as many turns as there is fuel. -/
def loop (cfg : Config) (limited : Bool) (v : View) (queues : List QueueInfo) :
    Nat → Nat → Progress F → Option (Progress F)
  | 0, _, _ => none
  | fuel + 1, attempt, p =>
    match turn cfg limited v queues (fuel + 1) attempt p with
    | none => none
    | some (.stop p) => some p
    | some (.go p) => loop cfg limited v queues fuel (attempt + 1) p

/-- The number of nodes a capacity event asks for. -/
def CapacityEvent.sized (ev : CapacityEvent) : CapacityEvent :=
  let coresPerNode := if ev.cloud.sku ≠ "" then 2 else 1
  let nodes := if 0 < ev.cores then wrap64 (ev.cores + coresPerNode - 1) / coresPerNode else 0
  let nodes := if 0 < ev.cloud.maxNodes ∧ ev.cloud.maxNodes ≤ nodes then ev.cloud.maxNodes else nodes
  { ev with nodes := max nodes 1 }

/-- The jobs of the cloud queues that were queued when the cycle began. -/
def queuedByQueue (queues : List QueueInfo) : Assoc (List String) :=
  (queues.filter (·.cloudBacked)).foldl
    (fun m q => q.jobs.foldl
      (fun m j => m.insert q.name ((m.lookup q.name).getD [] ++ [j.id])) m) ∅

def result (v : View) (queues : List QueueInfo) (p : Progress F J) : CycleResult where
  dispatched := p.dispatched
  capacityEvents := (p.pendingCap.range v.pendingOrder).filterMap fun name =>
    (p.pendingCap.lookup name).map CapacityEvent.sized
  queuedByQueue := queuedByQueue queues
  aliveJobs := v.aliveOrder.visit
    ((queues.flatMap fun q => q.jobs.map (·.id)) ++ p.nodes.flatMap (·.jobs)).dedup
  freeNodes := (p.nodes.filter (0 < ·.freeCPUs)).map (·.name)
  idleNodes := (p.nodes.filter fun n => n.jobs.isEmpty && 0 < n.freeCPUs).map (·.name)

/-- The end of a cycle: the server, the scheduler's usage table and the result. -/
structure Outcome (F : Type) where
  server : Server
  usage : Assoc F
  result : CycleResult

/-- `runCycle`; `none` if it has not ended with that much fuel. -/
def runCycle (cfg : Config) (limited : Bool) (v : View) (fuel : Nat) (usage : Assoc F)
    (s : Server) : Option (Outcome F) :=
  match (queryServer cfg v s : Server × Option (ServerInfo F)) with
  | (s, none) => some { server := s, usage, result := {} }
  | (s, some info) =>
    let usage := decayed cfg usage
    let queues := sortedByJob cfg v usage info.queues
    (loop cfg limited v queues fuel 0
      { server := s, nodes := info.nodes, jobs := newJobIterator cfg queues, usage }).map
      fun p => { server := p.server, usage := p.usage, result := result v queues p }

end Loop

end OpenTorque.Sched
