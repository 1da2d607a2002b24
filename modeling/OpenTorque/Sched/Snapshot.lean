import OpenTorque.Server.Status

/-! What the external scheduler reads from the server's status replies. Floating-point
numbers occur only as keys of an order, so their type is left open. -/
namespace OpenTorque.Sched
open Pbs (Attr StatusObject Reply)

/-- The operations of `float64` that the scheduler uses. -/
class GoFloat (F : Type) where
  zero : F
  /-- The value `strconv.ParseFloat` returns, whatever its error. -/
  parse : String → F
  less : F → F → Bool
  /-- `x + 1.0` -/
  incr : F → F
  /-- `x * 0.5^(interval / halfLife)` -/
  decay : F → Int → Int → F

/-- Without load figures all nodes are loaded alike. -/
instance : GoFloat Unit where
  zero := ()
  parse _ := ()
  less _ _ := false
  incr _ := ()
  decay _ _ _ := ()

structure JobInfo where
  id : String
  owner : String := ""
  state : String := ""
  queue : String := ""
  priority : Int := 0
  queueTime : Time := 0
  walltime : Int := 0
  memReq : Int := 0
  cpuReq : Int := 1
  host : String := ""
  hostGroup : String := ""
  features : List String := []
  nodes : Int := 0
  ppn : Int := 0
  gres : Assoc Int := ∅
  canNotRun : Bool := false

structure NodeInfo (F : Type) where
  name : String
  state : String := ""
  numProcs : Int := 0
  freeCPUs : Int := 0
  loadAvg : F
  jobs : List String := []
  usedCPUs : Int := 0
  properties : List String := []
  groups : List String := []
  dynamic : Bool := false
  gresTotal : Assoc Int := ∅
  gresUsed : Assoc Int := ∅

/-- The cloud definition of a queue, which a capacity event passes on. -/
structure CloudSpec where
  provider : String := ""
  sku : String := ""
  minNodes : Int := 0
  maxNodes : Int := 0
  idleTime : Int := 0
  provisionTimeout : Int := 0
  reclaim : String := ""
  subnetID : String := ""
  imageID : String := ""
  diskSize : Int := 0
  diskType : String := ""
  sshKey : String := ""
  location : String := ""
  rgName : String := ""
  cooldown : Int := 0
  scaleHeadroom : Int := 0
  drainTimeout : Int := 0
  deriving DecidableEq, Repr

structure QueueInfo where
  name : String
  type : String := ""
  enabled : Bool := true
  started : Bool := true
  priority : Int := 0
  jobs : List JobInfo := []
  naccessPolicy : String := ""
  hostList : List String := []
  cloudBacked : Bool := false
  cloud : CloudSpec := {}

/-- `strconv.Atoi` with its error dropped. -/
abbrev atoi (s : String) : Int := parseIntOrZero s

/-- The elements of a comma-separated list, trimmed, without the empty ones. -/
def listItems (value : String) : List String :=
  ((Text.split ',' value).map Text.trimSpace).filter (· ≠ "")

def parseNodeSelectSpec (spec : String) : Int × Int := Pbs.parseNodeSelectSpec spec

def parseWalltime (s : String) : Int :=
  match (Text.split ':' s).map atoi with
  | [h, m, sec] =>
    wrap64 (wrap64 (wrap64 (h * (3600 * Time.second)) + wrap64 (m * (60 * Time.second))) +
      wrap64 (sec * Time.second))
  | _ => 0

/-- The suffixes `parseMemory` knows, with their factors. -/
def memorySuffixes : List (String × Int) :=
  [("kb", 1), ("mb", 1024), ("gb", 1024 * 1024), ("tb", 1024 * 1024 * 1024)]

def parseMemory (s : String) : Int :=
  let s := Text.toLower (Text.trimSpace s)
  match memorySuffixes.findSome? fun (mark, factor) =>
    (Text.beforeSuffix mark s).map (·, factor) with
  | some (number, factor) => wrap64 (atoi number * factor)
  | none => atoi s

namespace JobInfo

def setHost (j : JobInfo) (value : String) : JobInfo :=
  match Text.afterPrefix "@" (Text.trimSpace value) with
  | some group => { j with hostGroup := group }
  | none => { j with host := value }

def setNodes (j : JobInfo) (spec : String) : JobInfo :=
  { j with nodes := (parseNodeSelectSpec spec).1, ppn := (parseNodeSelectSpec spec).2 }

/-- A resource that none of the cases names. -/
def setGRes (j : JobInfo) (key value : String) : JobInfo :=
  match Text.afterPrefix "Resource_List." key, (parseInt value).filter (0 < ·) with
  | some name, some n => { j with gres := j.gres.insert name n }
  | _, _ => j

/-- The key under which `parseJobInfo` looks an attribute up. -/
def keyOf (a : Attr) : String :=
  if a.hasResc && a.resc ≠ "" then a.name ++ "." ++ a.resc else a.name

/-- One attribute of `parseJobInfo`. -/
def read (j : JobInfo) (a : Attr) : JobInfo :=
  match keyOf a with
  | "Job_Owner" => { j with owner := ((Text.cutKey '@' a.value).map (·.1)).getD a.value }
  | "job_state" => { j with state := a.value }
  | "queue" => { j with queue := a.value }
  | "Priority" => { j with priority := atoi a.value }
  | "qtime" => { j with queueTime := ((parseInt a.value).map Time.ofUnix).getD j.queueTime }
  | "Resource_List.walltime" => { j with walltime := parseWalltime a.value }
  | "Resource_List.mem" => { j with memReq := parseMemory a.value }
  | "Resource_List.ncpus" => { j with cpuReq := atoi a.value }
  | "Resource_List.nodes" => j.setNodes a.value
  | "Resource_List.select" => j.setNodes a.value
  | "Resource_List.ppn" => { j with ppn := ((parseInt a.value).filter (0 < ·)).getD j.ppn }
  | "Resource_List.host" => j.setHost a.value
  | "Resource_List.feature" => { j with features := j.features ++ listItems a.value }
  | "Resource_List.features" => { j with features := j.features ++ listItems a.value }
  | "Resource_List.properties" => { j with features := j.features ++ listItems a.value }
  | key => j.setGRes key a.value

end JobInfo

def parseJobInfo (obj : StatusObject) : JobInfo := obj.attrs.foldl JobInfo.read { id := obj.name }

namespace NodeInfo
variable {F : Type} [GoFloat F]

/-- `NumProcs`, with all of the processors free. -/
def setProcs (n : NodeInfo F) (np : Int) : NodeInfo F := { n with numProcs := np, freeCPUs := np }

/-- The jobs of a node; without a figure for its processors each job counts as one. -/
def setJobs (n : NodeInfo F) (usedReported : Bool) (value : String) : NodeInfo F :=
  let jobs := Text.split ',' value
  { n with
    jobs := jobs
    freeCPUs := if usedReported then n.freeCPUs else max (wrap64 (n.numProcs - jobs.length)) 0 }

/-- The capacity or the use of a generic resource. -/
def setGRes (n : NodeInfo F) (name value : String) : NodeInfo F :=
  match (parseInt value).filter (0 ≤ ·) with
  | none => n
  | some v =>
    match Text.afterPrefix "resources_available." name, Text.afterPrefix "gres_used." name with
    | some resc, _ => { n with gresTotal := n.gresTotal.insert resc v }
    | none, some resc => { n with gresUsed := n.gresUsed.insert resc v }
    | none, none => n

/-- One attribute of `parseNodeInfo`, with its variable `usedReported`. -/
def read : NodeInfo F × Bool → Attr → NodeInfo F × Bool
  | (n, usedReported), a =>
    match a.name with
    | "state" => ({ n with state := a.value }, usedReported)
    | "np" => (n.setProcs (atoi a.value), usedReported)
    | "ncpus" => (if n.numProcs = 0 then n.setProcs (atoi a.value) else n, usedReported)
    | "used_cpus" =>
      match (parseInt a.value).filter (0 ≤ ·) with
      | some used => ({ n with usedCPUs := used }, true)
      | none => (n, usedReported)
    | "loadave" => ({ n with loadAvg := GoFloat.parse a.value }, usedReported)
    | "jobs" => (if a.value = "" then n else n.setJobs usedReported a.value, usedReported)
    | "properties" => ({ n with properties := n.properties ++ listItems a.value }, usedReported)
    | "features" => ({ n with properties := n.properties ++ listItems a.value }, usedReported)
    | "hostgroups" => ({ n with groups := n.groups ++ listItems a.value }, usedReported)
    | "groups" => ({ n with groups := n.groups ++ listItems a.value }, usedReported)
    | "is_dynamic" => ({ n with dynamic := a.value = "true" }, usedReported)
    | name => (n.setGRes name a.value, usedReported)

/-- The free processors once all attributes are read. -/
def settle : NodeInfo F × Bool → NodeInfo F
  | (n, true) => { n with freeCPUs := max (wrap64 (n.numProcs - n.usedCPUs)) 0 }
  | (n, false) => n

end NodeInfo

def parseNodeInfo {F : Type} [GoFloat F] (obj : StatusObject) : NodeInfo F :=
  .settle (obj.attrs.foldl NodeInfo.read ({ name := obj.name, loadAvg := GoFloat.zero }, false))

namespace QueueInfo

def isTrue (value : String) : Bool := value = "True" || value = "true"

def setCloud (q : QueueInfo) (change : CloudSpec → CloudSpec) : QueueInfo :=
  { q with cloud := change q.cloud }

/-- One attribute of `parseQueueInfo`. -/
def read (q : QueueInfo) (a : Attr) : QueueInfo :=
  match a.name with
  | "queue_type" => { q with type := a.value }
  | "enabled" => { q with enabled := isTrue a.value }
  | "started" => { q with started := isTrue a.value }
  | "Priority" => { q with priority := atoi a.value }
  | "naccesspolicy" => { q with naccessPolicy := Text.toLower (Text.trimSpace a.value) }
  | "hostlist" => { q with hostList := q.hostList ++ Text.split ',' a.value }
  | "cloud_provider" =>
    { q.setCloud ({ · with provider := a.value }) with
      cloudBacked := q.cloudBacked || a.value ≠ "" }
  | "cloud_vm_sku" => q.setCloud ({ · with sku := a.value })
  | "cloud_min_nodes" => q.setCloud ({ · with minNodes := atoi a.value })
  | "cloud_max_nodes" => q.setCloud ({ · with maxNodes := atoi a.value })
  | "cloud_idle_time" => q.setCloud ({ · with idleTime := atoi a.value })
  | "cloud_provision_timeout" => q.setCloud ({ · with provisionTimeout := atoi a.value })
  | "cloud_reclaim" => q.setCloud ({ · with reclaim := a.value })
  | "cloud_subnet_id" => q.setCloud ({ · with subnetID := a.value })
  | "cloud_image_id" => q.setCloud ({ · with imageID := a.value })
  | "cloud_disk_size" => q.setCloud ({ · with diskSize := atoi a.value })
  | "cloud_disk_type" => q.setCloud ({ · with diskType := a.value })
  | "cloud_ssh_key" => q.setCloud ({ · with sshKey := a.value })
  | "cloud_location" => q.setCloud ({ · with location := a.value })
  | "cloud_rg_name" => q.setCloud ({ · with rgName := a.value })
  | "cloud_cooldown" => q.setCloud ({ · with cooldown := atoi a.value })
  | "cloud_scale_headroom" => q.setCloud ({ · with scaleHeadroom := atoi a.value })
  | "cloud_drain_timeout" => q.setCloud ({ · with drainTimeout := atoi a.value })
  | _ => q

end QueueInfo

def parseQueueInfo (obj : StatusObject) : QueueInfo :=
  obj.attrs.foldl QueueInfo.read { name := obj.name }

end OpenTorque.Sched
