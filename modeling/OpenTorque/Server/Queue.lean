import OpenTorque.Server.Job

/-! Queues, their counters and the attributes `qmgr` sets on them. Attributes that are
handled alike are one field indexed by an enumeration with the attribute's name. -/
namespace OpenTorque.Pbs

/-- One entry of a `svrattrl` list. -/
structure Attr where
  name : String
  value : String
  resc : String := ""
  hasResc : Bool := false
  op : Int := 1
  deriving DecidableEq, Repr

inductive QueueType where
  | execution | route
  deriving DecidableEq, Repr

inductive QueueFlag where
  | enabled | started | aclUserEnabled | aclGroupEnabled | aclHostEnabled
  deriving DecidableEq, Repr

inductive QueueNumber where
  | priority | maxJobs | maxRun | maxUserJobs | maxUserRun
  | cloudMinNodes | cloudMaxNodes | cloudIdleTime | cloudProvisionTimeout | cloudDiskSize
  | cloudCooldown | cloudScaleHeadroom | cloudDrainTimeout
  deriving DecidableEq, Repr

inductive QueueText where
  | naccessPolicy | cloudProvider | cloudVMSKU | cloudReclaim | cloudSubnetID | cloudImageID
  | cloudDiskType | cloudSSHKey | cloudLocation | cloudRgName
  deriving DecidableEq, Repr

inductive QueueList where
  | disallowedTypes | aclUsers | aclGroups | aclHosts | hostList | routeDestin
  deriving DecidableEq, Repr

inductive QueueLimits where
  | max | min | dflt
  deriving DecidableEq, Repr

structure Queue where
  type : QueueType := .execution
  flag : QueueFlag → Bool := fun f => f = .enabled ∨ f = .started
  number : QueueNumber → Int := fun _ => 0
  text : QueueText → String := fun _ => ""
  list : QueueList → List String := fun _ => []
  resource : QueueLimits → Assoc String := fun _ => ∅
  attrs : Assoc String := ∅
  totalJobs : Nat := 0
  stateJobs : StateCounts := .zero

def QueueNumber.attr : QueueNumber → String
  | priority => "Priority" | maxJobs => "max_queuable" | maxRun => "max_running"
  | maxUserJobs => "max_user_queuable" | maxUserRun => "max_user_run"
  | cloudMinNodes => "cloud_min_nodes" | cloudMaxNodes => "cloud_max_nodes"
  | cloudIdleTime => "cloud_idle_time" | cloudProvisionTimeout => "cloud_provision_timeout"
  | cloudDiskSize => "cloud_disk_size" | cloudCooldown => "cloud_cooldown"
  | cloudScaleHeadroom => "cloud_scale_headroom" | cloudDrainTimeout => "cloud_drain_timeout"

def QueueNumber.all : List QueueNumber :=
  [priority, maxJobs, maxRun, maxUserJobs, maxUserRun, cloudMinNodes, cloudMaxNodes,
    cloudIdleTime, cloudProvisionTimeout, cloudDiskSize, cloudCooldown, cloudScaleHeadroom,
    cloudDrainTimeout]

def QueueText.attr : QueueText → String
  | naccessPolicy => "naccesspolicy" | cloudProvider => "cloud_provider"
  | cloudVMSKU => "cloud_vm_sku" | cloudReclaim => "cloud_reclaim"
  | cloudSubnetID => "cloud_subnet_id" | cloudImageID => "cloud_image_id"
  | cloudDiskType => "cloud_disk_type" | cloudSSHKey => "cloud_ssh_key"
  | cloudLocation => "cloud_location" | cloudRgName => "cloud_rg_name"

def QueueText.all : List QueueText :=
  [naccessPolicy, cloudProvider, cloudVMSKU, cloudReclaim, cloudSubnetID, cloudImageID,
    cloudDiskType, cloudSSHKey, cloudLocation, cloudRgName]

/-- How a text is normalised when `qmgr` sets it. -/
def QueueText.normalise (field : QueueText) (value : String) : String :=
  match field with
  | naccessPolicy => Text.toLower (Text.trimSpace value)
  | cloudProvider | cloudReclaim => Text.toLower value
  | _ => value

def QueueList.attr : QueueList → String
  | disallowedTypes => "disallowed_types" | aclUsers => "acl_users" | aclGroups => "acl_groups"
  | aclHosts => "acl_hosts" | hostList => "hostlist" | routeDestin => "route_destinations"

def QueueLimits.attr : QueueLimits → String
  | max => "resources_max" | min => "resources_min" | dflt => "resources_default"

/-- `queue.ParseList` -/
def parseList (v : String) : List String :=
  ((Text.split ',' v).flatMap Text.fields).eraseDups

/-- The three spellings of a true value that the attribute setters know. -/
def parseBool (v : String) : Bool := v = "True" || v = "true" || v = "1"

namespace Queue

def setFlag (q : Queue) (f : QueueFlag) (v : Bool) : Queue :=
  { q with flag := Function.update q.flag f v }

def setNumber (q : Queue) (f : QueueNumber) (v : Int) : Queue :=
  { q with number := Function.update q.number f v }

def setText (q : Queue) (f : QueueText) (v : String) : Queue :=
  { q with text := Function.update q.text f v }

def setList (q : Queue) (f : QueueList) (v : List String) : Queue :=
  { q with list := Function.update q.list f v }

def setResource (q : Queue) (f : QueueLimits) (resc v : String) : Queue :=
  { q with resource := Function.update q.resource f ((q.resource f).insert resc v) }

def setAttr (q : Queue) (name v : String) : Queue := { q with attrs := q.attrs.insert name v }

/-- The names under which `qmgr` sets a list; the newer code adds the spellings the
older clients send. -/
def listNames : QueueList → List String
  | .routeDestin => ["route_destinations", "route_destin"]
  | f => [f.attr]

def allLists : List QueueList :=
  [.aclUsers, .aclGroups, .aclHosts, .hostList, .routeDestin, .disallowedTypes]

/-- The effect of one attribute that is not a list. -/
def applyAttr (q : Queue) (a : Attr) : Queue :=
  match QueueNumber.all.find? (·.attr = a.name), QueueText.all.find? (·.attr = a.name) with
  | some f, _ => q.setNumber f (scanInto (q.number f) a.value)
  | none, some f => q.setText f (f.normalise a.value)
  | none, none =>
    match a.name with
    | "queue_type" =>
      if Text.equalFold a.value "Execution" || a.value = "e" then { q with type := .execution }
      else { q with type := .route }
    | "enabled" => q.setFlag .enabled (parseBool a.value)
    | "started" => q.setFlag .started (parseBool a.value)
    | "resources_max" => if a.hasResc then q.setResource .max a.resc a.value else q
    | "resources_min" => if a.hasResc then q.setResource .min a.resc a.value else q
    | "resources_default" => if a.hasResc then q.setResource .dflt a.resc a.value else q
    | "acl_user_enable" | "acl_user_enabled" => q.setFlag .aclUserEnabled (parseBool a.value)
    | "acl_group_enable" | "acl_group_enabled" => q.setFlag .aclGroupEnabled (parseBool a.value)
    | "acl_host_enable" | "acl_host_enabled" => q.setFlag .aclHostEnabled (parseBool a.value)
    | name => if allLists.any fun f => name ∈ listNames f then q else q.setAttr name a.value

/-- A list that occurs among the attributes is replaced by all its entries together. -/
def applyList (attrs : List Attr) (q : Queue) (f : QueueList) : Queue :=
  match attrs.filter fun a => a.name ∈ listNames f with
  | [] => q
  | given => q.setList f (given.flatMap fun a => parseList a.value)

def applyQueueAttrs (q : Queue) (attrs : List Attr) : Queue :=
  allLists.foldl (applyList attrs) (attrs.foldl applyAttr q)

def recount (q : Queue) (total : Nat) (states : StateCounts) : Queue :=
  { q with totalJobs := total, stateJobs := states }

def incrJobCount (q : Queue) (state : JobState) : Queue :=
  q.recount (q.totalJobs + 1) (q.stateJobs.incr state)

def decrJobCount (q : Queue) (state : JobState) : Queue :=
  q.recount (q.totalJobs - 1) (q.stateJobs.decr state)

def transferJobState (q : Queue) (old new : JobState) : Queue :=
  q.recount q.totalJobs ((q.stateJobs.decr old).incr new)

end Queue

/-- `queue.Manager`: the queues by name. -/
abbrev QueueManager := Assoc Queue

namespace QueueManager

/-- `DefaultQueue`: some execution queue, else any queue; each loop has its own order. -/
def defaultQueue (m : QueueManager) (execution any : RangeOrder) : Option String :=
  ((m.range execution).find? fun name => (m.lookup name).any (·.type = .execution))
    <|> (m.range any).head?

def onQueue (m : QueueManager) (name : String) (change : Queue → Queue) : QueueManager :=
  match m.lookup name with
  | none => m
  | some q => m.insert name (change q)

end QueueManager

end OpenTorque.Pbs
