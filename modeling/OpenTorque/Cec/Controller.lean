import OpenTorque.Core.Transition
import OpenTorque.Core.Assoc
import OpenTorque.Core.Number

/-! The Cloud Elastic Controller: pools of provisioned, owned and hibernated VMs,
the event inbox, and every entry point taken under the controller mutex as one
step. The cloud provider and the node controller are parameters of a step; each
call made to them is emitted in order. -/
namespace OpenTorque.Cec

/-- Nanoseconds since the Unix epoch. -/
abbrev Time := Int
abbrev Duration := Int

/-- The zero `time.Time`, midnight of January 1 of year 1. -/
def Time.zero : Time := -62135596800 * 1000000000

def second : Duration := 1000000000
def minute : Duration := 60 * second

inductive EventKind where
  | capacity | nodeFree | nodeIdle | nodeDown
  deriving DecidableEq, Repr

structure JobDemand where
  id : String
  cpus : Int := 0
  memKB : Int := 0
  deriving DecidableEq, Repr

structure Shortfall where
  cores : Int := 0
  nodes : Int := 0
  blocked : Int := 0
  deriving DecidableEq, Repr

structure Event where
  kind : EventKind
  queue : String
  provider : String := ""
  sku : String := ""
  jobs : List JobDemand := []
  shortfall : Shortfall := {}
  minNodes : Int := 0
  maxNodes : Int := 0
  idleTime : Duration := 0
  provisionTimeout : Duration := 0
  reclaim : String := ""
  subnetID : String := ""
  imageID : String := ""
  diskSize : Int := 0
  diskType : String := ""
  sshKey : String := ""
  location : String := ""
  rgName : String := ""
  serverAddr : String := ""
  cooldown : Duration := 0
  scaleHeadroom : Int := 0
  drainTimeout : Duration := 0
  deriving DecidableEq, Repr

structure Pool where
  queue : String
  provider : String
  sku : String
  minNodes : Int
  maxNodes : Int
  idleTime : Duration
  reclaim : String
  subnetID : String
  imageID : String
  diskSize : Int
  diskType : String
  sshKey : String
  location : String
  rgName : String
  serverAddr : String
  /-- The two counters only follow the steps of one process, so unlike the sizes that an event
  brings they cannot reach the end of an `int`. -/
  running : Int := 0
  inflight : Int := 0
  provisioning : Assoc String := ∅
  provisionTimeout : Duration := 0
  provisionedAt : Assoc Time := ∅
  owned : Assoc Bool := ∅
  idleSince : Assoc Time := ∅
  hibernated : Assoc Time := ∅
  cooldownUntil : Time := Time.zero
  lastScale : Time := Time.zero
  cooldown : Duration := 0
  headroom : Int := 0
  drainTimeout : Duration := 0
  lastReclaim : Assoc Time := ∅

structure Controller where
  pools : Assoc Pool := ∅
  /-- The buffered inbox, oldest event first. -/
  events : List Event := []
  cooldown : Duration := 30 * second
  /-- Whether a `NodeController` has been injected. -/
  nodes : Bool := false

/-- The identity of a VM is the only part of a handle the controller reads. -/
structure VM where
  id : String
  deriving DecidableEq, Repr

structure VMRef where
  provider : String
  vmID : String
  deriving DecidableEq, Repr

structure EnsureRequest where
  provider : String
  sku : String
  count : Int
  subnetID : String
  imageID : String
  diskSize : Int
  diskType : String
  sshKey : String
  location : String
  resourceGroup : String
  minNodes : Int
  maxNodes : Int
  serverAddr : String
  hibernate : Bool
  deriving DecidableEq, Repr

/-- The function that asks the provider to reclaim a VM. -/
inductive ReclaimSite where
  | provisioningTimeout | queuedJobs | idleNode
  deriving DecidableEq, Repr

/-- One call to the provider or to the node controller. A reclaim carries the
pool as it stands when the call is made. -/
inductive Call where
  | ensure (request : EnsureRequest) (answer : Except String (List VM))
  | resume (ref : VMRef)
  | reclaim (site : ReclaimSite) (pool : Pool) (ref : VMRef) (policy : String) (destroy : Bool)
  | drainNode (name : String)
  | deregisterNode (name : String)

/-- The maps a step may loop over. -/
inductive RangeSite where
  | pools | hibernated | provisioning | provisionedAt | owned | idleSince
  deriving DecidableEq, Repr

/-- What one step reads from outside: the clock, the visiting orders of its loops
and the answers of the provider and of the node controller. -/
structure Env where
  now : Time
  boundAt : Nat → Time := fun _ => now
  order : RangeSite → String → RangeOrder := fun _ _ => .listed
  ensure : EnsureRequest → Except String (List VM) := fun _ => .ok []
  /-- The VMs that come along with an error of `ensure`; the controller drops them. -/
  strays : EnsureRequest → List VM := fun _ => []
  reclaim : VMRef → String → Bool → Except String Unit := fun _ _ _ => .ok ()
  drainNode : String → Except String Unit := fun _ => .ok ()
  deregisterNode : String → Except String Unit := fun _ => .ok ()

def failed : Except String α → Bool
  | .error _ => true
  | .ok _ => false

def new : Controller := {}

/-- Counters are decremented only while positive. -/
def decrement (n : Int) : Int := if n > 0 then n - 1 else n

def Pool.create (ev : Event) : Pool where
  queue := ev.queue
  provider := ev.provider
  sku := ev.sku
  minNodes := ev.minNodes
  maxNodes := ev.maxNodes
  idleTime := ev.idleTime
  reclaim := ev.reclaim
  subnetID := ev.subnetID
  imageID := ev.imageID
  diskSize := ev.diskSize
  diskType := ev.diskType
  sshKey := ev.sshKey
  location := ev.location
  rgName := ev.rgName
  serverAddr := ev.serverAddr

/-- Later events override a pool's settings only with non-default values. -/
def Pool.configure (p : Pool) (ev : Event) : Pool :=
  { p with
    provider := if ev.provider ≠ "" then ev.provider else p.provider
    sku := if ev.provider ≠ "" then ev.sku else p.sku
    minNodes := if ev.minNodes > 0 then ev.minNodes else p.minNodes
    maxNodes := if ev.maxNodes > 0 then ev.maxNodes else p.maxNodes
    idleTime := if ev.idleTime > 0 then ev.idleTime else p.idleTime
    provisionTimeout :=
      if ev.provisionTimeout > 0 then ev.provisionTimeout else p.provisionTimeout
    reclaim := if ev.reclaim ≠ "" then ev.reclaim else p.reclaim
    cooldown := if ev.cooldown > 0 then ev.cooldown else p.cooldown
    headroom := if ev.scaleHeadroom > 0 then ev.scaleHeadroom else p.headroom
    drainTimeout := if ev.drainTimeout > 0 then ev.drainTimeout else p.drainTimeout }

def ensurePool (pools : Assoc Pool) (ev : Event) : Pool :=
  ((pools.lookup ev.queue).getD (Pool.create ev)).configure ev

def mergeJobs (jobs more : List JobDemand) : List JobDemand :=
  more.foldl (fun seen j => if seen.any (·.id == j.id) then seen else seen ++ [j]) jobs

/-- Merge one queued event into `ev`; an event of another kind or for another
queue is dropped. -/
def coalesceEvent (queue : String) (ev e2 : Event) : Event :=
  if e2.kind ≠ .capacity ∨ e2.queue ≠ queue then ev
  else
    { ev with
      shortfall :=
        { nodes := max ev.shortfall.nodes e2.shortfall.nodes
          cores := max ev.shortfall.cores e2.shortfall.cores
          blocked := max ev.shortfall.blocked e2.shortfall.blocked }
      jobs := mergeJobs ev.jobs e2.jobs }

def coalesceCapacityEvents (queue : String) (ev : Event) (queued : List Event) : Event :=
  queued.foldl (coalesceEvent queue) ev

def Pool.desiredSize (p : Pool) (ev : Event) : Int :=
  let target := wrap64 (p.running + ev.shortfall.nodes + p.headroom)
  let target := if p.maxNodes > 0 ∧ target > p.maxNodes then p.maxNodes else target
  if target < p.minNodes then p.minNodes else target

/-- The VMs that a scale-out is short of. -/
def Pool.need (p : Pool) (ev : Event) : Int := wrap64 (p.desiredSize ev - (p.running + p.inflight))

/-- The job bound to the `i`th VM of a scale-out, empty when there is none. -/
def Event.jobAt (ev : Event) (i : Nat) : String := (ev.jobs[i]?).elim "" (·.id)

def Pool.bind (p : Pool) (vmID jobID : String) (stamp : Time) : Pool :=
  { p with
    provisioning := p.provisioning.insert vmID jobID
    provisionedAt := p.provisionedAt.insert vmID stamp }

/-- The VM suspended first, as the selection loop over `Hibernated` finds it. -/
def Pool.oldestHibernated (p : Pool) (order : RangeOrder) : String :=
  ((p.hibernated.range order).foldl
    (fun best vmID =>
      let t := (p.hibernated.lookup vmID).getD Time.zero
      if best.1 = "" ∨ t < best.2 then (vmID, t) else best)
    ("", Time.zero)).1

def Pool.resume (p : Pool) (vmID jobID : String) (now : Time) : Pool :=
  { ({ p with hibernated := p.hibernated.erase vmID } : Pool).bind vmID jobID now with
    inflight := p.inflight + 1 }

/-- Resume hibernated VMs while some are left; the first argument is the number
of VMs still needed and the second the number already resumed. -/
def resumeHibernated (env : Env) (ev : Event) : Nat → Nat → Pool → Pool × Nat × List Call
  | 0, resumed, p => (p, resumed, [])
  | needed + 1, resumed, p =>
    if p.hibernated.keys = [] then (p, resumed, [])
    else
      let vmID := p.oldestHibernated (env.order .hibernated p.queue)
      let rest := resumeHibernated env ev needed (resumed + 1)
        (p.resume vmID (ev.jobAt resumed) env.now)
      (rest.1, rest.2.1, .resume ⟨p.provider, vmID⟩ :: rest.2.2)

def ensureRequest (p : Pool) (ev : Event) (need : Int) : EnsureRequest where
  provider := ev.provider
  sku := ev.sku
  count := need
  subnetID := p.subnetID
  imageID := p.imageID
  diskSize := p.diskSize
  diskType := p.diskType
  sshKey := p.sshKey
  location := p.location
  resourceGroup := p.rgName
  minNodes := p.minNodes
  maxNodes := p.maxNodes
  serverAddr := p.serverAddr
  hibernate := p.reclaim = "hibernate"

def bindVMs (env : Env) (ev : Event) (vms : List VM) (p : Pool) : Pool :=
  vms.zipIdx.foldl (fun p vm => p.bind vm.1.id (ev.jobAt vm.2) (env.boundAt vm.2)) p

def provision (env : Env) (ev : Event) (need : Int) (p : Pool) : Pool × List Call :=
  let request := ensureRequest p ev need
  match env.ensure request with
  | .error e => (p, [.ensure request (.error e)])
  | .ok vms =>
    let bound := bindVMs env ev vms p
    ({ bound with inflight := bound.inflight + vms.length }, [.ensure request (.ok vms)])

/-- The per-pool cooldown overrides the controller's default. -/
def Pool.startCooldown (p : Pool) (cooldown : Duration) (now : Time) : Pool :=
  { p with
    lastScale := now
    cooldownUntil := now + (if p.cooldown ≤ 0 then cooldown else p.cooldown) }

/-- The scale-out half of `handleCapacity`, after the queued events are merged. -/
def scaleOut (env : Env) (cooldown : Duration) (ev : Event) (p : Pool) : Pool × List Call :=
  if env.now < p.cooldownUntil then (p, [])
  else
    let need := p.need ev
    if need ≤ 0 then (p, [])
    else
      let resumed := resumeHibernated env ev need.toNat 0 (p.startCooldown cooldown env.now)
      let need := need - resumed.2.1
      if need ≤ 0 then (resumed.1, resumed.2.2)
      else
        let provisioned := provision env ev need resumed.1
        (provisioned.1, resumed.2.2 ++ provisioned.2)

def Controller.put (c : Controller) (queue : String) (p : Pool) : Controller :=
  { c with pools := c.pools.insert queue p }

/-- Run `f` on the pool of `queue`; entry points return at once without one. -/
def Controller.onPool (c : Controller) (queue : String) (f : Pool → Pool × List Call) :
    Controller × List Call :=
  match c.pools.lookup queue with
  | none => (c, [])
  | some p => (c.put queue (f p).1, (f p).2)

def handleCapacity (env : Env) (c : Controller) (ev : Event) : Controller × List Call :=
  let p := ensurePool c.pools ev
  let merged := coalesceCapacityEvents p.queue ev c.events
  let scaled := scaleOut env c.cooldown merged p
  (({ c with events := [] } : Controller).put ev.queue scaled.1, scaled.2)

def handleNodeFree (c : Controller) (ev : Event) : Controller :=
  c.put ev.queue (ensurePool c.pools ev)

def handleNodeIdle (c : Controller) (ev : Event) : Controller :=
  c.put ev.queue (ensurePool c.pools ev)

def handleNodeDown (c : Controller) (ev : Event) : Controller :=
  let p := ensurePool c.pools ev
  c.put ev.queue { p with running := decrement p.running }

def handle (env : Env) (c : Controller) (ev : Event) : Controller × List Call :=
  match ev.kind with
  | .capacity => handleCapacity env c ev
  | .nodeFree => (handleNodeFree c ev, [])
  | .nodeIdle => (handleNodeIdle c ev, [])
  | .nodeDown => (handleNodeDown c ev, [])

/-- A node in `Provisioning` becomes `Owned`; its `ProvisionedAt` stamp stays. -/
def Pool.nodeUp (p : Pool) (n : String) : Pool :=
  if n ∈ p.provisioning then
    { p with
      provisioning := p.provisioning.erase n
      inflight := decrement p.inflight
      owned := p.owned.insert n true
      running := p.running + 1 }
  else p

def registerNodesUp (c : Controller) (queue : String) (nodes : List String) :
    Controller × List Call :=
  c.onPool queue fun p => (nodes.foldl Pool.nodeUp p, [])

def registerNodeUp (c : Controller) (queue vmID : String) : Controller × List Call :=
  registerNodesUp c queue [vmID]

def Pool.clearIdle (p : Pool) (name : String) : Pool :=
  { p with idleSince := p.idleSince.erase name }

def Pool.markIdle (now : Time) (idleNodes : List String) (p : Pool) (name : String) : Pool :=
  if name ∈ idleNodes then
    if name ∈ p.idleSince then p else { p with idleSince := p.idleSince.insert name now }
  else p.clearIdle name

def registerNodesIdle (env : Env) (c : Controller) (queue : String) (idleNodes : List String) :
    Controller × List Call :=
  c.onPool queue fun p =>
    ((p.owned.range (env.order .owned queue)).foldl (Pool.markIdle env.now idleNodes) p, [])

/-- Ask the provider to destroy a provisioning VM and forget it once it did. -/
def destroyProvisioning (env : Env) (site : ReclaimSite) (p : Pool) (vmID : String) :
    Pool × List Call :=
  let ref : VMRef := ⟨p.provider, vmID⟩
  let call := Call.reclaim site p ref "deallocate" true
  if failed (env.reclaim ref "deallocate" true) then (p, [call])
  else
    ({ p with
        provisioning := p.provisioning.erase vmID
        provisionedAt := p.provisionedAt.erase vmID
        inflight := decrement p.inflight }, [call])

/-- A provisioning VM bound to a job that is not alive; unbound VMs are skipped. -/
def Pool.orphaned (p : Pool) (alive : List String) (vmID : String) : Bool :=
  match p.provisioning.lookup vmID with
  | none => false
  | some jobID => jobID ≠ "" && !alive.contains jobID

def syncQueuedJobs (env : Env) (c : Controller) (queue : String) (jobIDs : List String) :
    Controller × List Call :=
  c.onPool queue fun p =>
    let stale := (p.provisioning.range (env.order .provisioning queue)).filter (p.orphaned jobIDs)
    Transition.run (destroyProvisioning env .queuedJobs) p stale

def Pool.timeout (p : Pool) : Duration :=
  if p.provisionTimeout ≤ 0 then 10 * minute else p.provisionTimeout

/-- The stamp of `vmID` is at least the provisioning timeout old. -/
def Pool.timedOut (p : Pool) (now : Time) (vmID : String) : Bool :=
  match p.provisionedAt.lookup vmID with
  | none => false
  | some since => now - since ≥ p.timeout

def sweepProvisioningTimeoutLocked (env : Env) (qname : String) (p : Pool) : Pool × List Call :=
  let stale := (p.provisionedAt.range (env.order .provisionedAt qname)).filter (p.timedOut env.now)
  Transition.run (destroyProvisioning env .provisioningTimeout) p stale

def Pool.attempt (p : Pool) (name : String) (now : Time) : Pool :=
  { p with lastReclaim := p.lastReclaim.insert name now }

def Pool.forget (p : Pool) (name : String) : Pool :=
  { p with
    owned := p.owned.erase name
    idleSince := p.idleSince.erase name
    lastReclaim := p.lastReclaim.erase name
    running := decrement p.running }

def Pool.hibernate (p : Pool) (name : String) (now : Time) : Pool :=
  { p with hibernated := p.hibernated.insert name now }

/-- The reclaim policy of a pool, with its default. -/
def Pool.policy (p : Pool) : String := if p.reclaim = "" then "deallocate" else p.reclaim

/-- Drain, deregister and reclaim one idle node. Only a failed drain or
deregistration aborts; a failed provider call is logged and the node forgotten. -/
def reclaimNodeLocked (env : Env) (nodes : Bool) (p : Pool) (name : String) : Pool × List Call :=
  let p := p.attempt name env.now
  if !nodes then (p.clearIdle name, [])
  else if failed (env.drainNode name) then (p, [.drainNode name])
  else if failed (env.deregisterNode name) then (p, [.drainNode name, .deregisterNode name])
  else
    let destroy := p.policy = "destroy"
    let calls := [.drainNode name, .deregisterNode name,
      .reclaim .idleNode p ⟨p.provider, name⟩ p.policy destroy]
    if p.policy = "hibernate" ∧ ¬ destroy then ((p.forget name).hibernate name env.now, calls)
    else (p.forget name, calls)

/-- Reclaim one candidate unless its last attempt is within the drain timeout. -/
def reclaimCandidate (env : Env) (nodes : Bool) (p : Pool) (name : String) : Pool × List Call :=
  match p.lastReclaim.lookup name with
  | none => reclaimNodeLocked env nodes p name
  | some last =>
    if p.drainTimeout > 0 ∧ env.now - last < p.drainTimeout then (p, [])
    else reclaimNodeLocked env nodes p name

def Pool.idleLong (p : Pool) (now : Time) (name : String) : Bool :=
  match p.idleSince.lookup name with
  | none => false
  | some idleSince => !(now - idleSince < p.idleTime)

/-- The scale-in half of one pool's turn in `reclaimIdle`. -/
def reclaimIdleNodes (env : Env) (nodes : Bool) (qname : String) (p : Pool) : Pool × List Call :=
  if p.idleTime ≤ 0 ∨ p.running ≤ p.minNodes then (p, [])
  else
    let candidates := (p.idleSince.range (env.order .idleSince qname)).filter (p.idleLong env.now)
    Transition.run (reclaimCandidate env nodes) p candidates

def reclaimPool (env : Env) (nodes : Bool) (qname : String) (p : Pool) : Pool × List Call :=
  let swept := sweepProvisioningTimeoutLocked env qname p
  let reclaimed := reclaimIdleNodes env nodes qname swept.1
  (reclaimed.1, swept.2 ++ reclaimed.2)

def reclaimIdle (env : Env) (c : Controller) : Controller × List Call :=
  Transition.run (fun pools qname => pools.onPool qname (reclaimPool env c.nodes qname)) c
    (c.pools.range (env.order .pools ""))

/-- The entry points of the controller, each one critical section. -/
inductive Action where
  | setNodeController
  | send (ev : Event)
  | receive
  | registerNodesUp (queue : String) (nodes : List String)
  | registerNodesIdle (queue : String) (idleNodes : List String)
  | syncQueuedJobs (queue : String) (jobIDs : List String)
  | reclaimIdle

def eventBuffer : Nat := 1024

def Controller.step (env : Env) (c : Controller) : Action → Controller × List Call
  | .setNodeController => ({ c with nodes := true }, [])
  -- a send to a full channel blocks its sender and changes nothing
  | .send ev =>
    (if c.events.length < eventBuffer then { c with events := c.events ++ [ev] } else c, [])
  | .receive =>
    match c.events with
    | [] => (c, [])
    | ev :: rest => handle env { c with events := rest } ev
  | .registerNodesUp queue nodes => Cec.registerNodesUp c queue nodes
  | .registerNodesIdle queue idleNodes => Cec.registerNodesIdle env c queue idleNodes
  | .syncQueuedJobs queue jobIDs => Cec.syncQueuedJobs env c queue jobIDs
  | .reclaimIdle => Cec.reclaimIdle env c

end OpenTorque.Cec
