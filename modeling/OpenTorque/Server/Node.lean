import OpenTorque.Core.Assoc
import OpenTorque.Core.Number

/-! Compute nodes. A node's name is the key the manager holds it under, and the bit
mask of its state is one truth value for each flag. -/
namespace OpenTorque.Pbs

/-- The `INUSE_*` flags of a node. -/
structure NodeFlags where
  down : Bool := false
  offline : Bool := false
  reserve : Bool := false
  job : Bool := false
  busy : Bool := false
  unknown : Bool := false
  drain : Bool := false
  excl : Bool := false
  deriving DecidableEq, Repr

namespace NodeFlags

/-- The flags and their names, in the order `StateName` lists them. -/
def named (f : NodeFlags) : List (Bool × String) :=
  [(f.down, "down"), (f.offline, "offline"), (f.busy, "busy"), (f.job, "job-exclusive"),
    (f.reserve, "reserve"), (f.drain, "drain"), (f.excl, "excl"), (f.unknown, "state-unknown")]

def stateName (f : NodeFlags) : String :=
  match (f.named.filter (·.1)).map (·.2) with
  | [] => "free"
  | names => Text.join "," names

/-- The flags only an administrator changes. -/
def admin (f : NodeFlags) : NodeFlags :=
  { offline := f.offline, reserve := f.reserve, drain := f.drain, excl := f.excl }

end NodeFlags

structure Node where
  ip : String := ""
  state : NodeFlags := { down := true }
  numProcs : Int := 1
  momPort : Int := 15002
  status : Assoc String := ∅
  assignedJobs : List String := []
  slotsTotal : Int := 1
  slotsUsed : Int := 0
  lastUpdate : Time := 0
  powerState : String := "Running"
  properties : List String := []
  groups : List String := []
  note : String := ""
  queue : String := ""
  gres : Assoc Int := ∅
  dynamic : Bool := false
  attrs : Assoc String := ∅

namespace Node

/-- The host at which a node's MOM is called: its known address, else its name. -/
def momHost (n : Node) (name : String) : String := if n.ip = "" then name else n.ip

/-- The node `AddNode` registers. -/
def newNode (numProcs : Int) : Node := { numProcs, slotsTotal := numProcs }

def isFree (n : Node) : Bool := n.state = {} && n.slotsUsed < n.slotsTotal

def availableSlots (n : Node) : Int := max (wrap64 (n.slotsTotal - n.slotsUsed)) 0

def occupy (n : Node) (jobs : List String) (slots : Int) (exclusive : Bool) : Node :=
  { n with assignedJobs := jobs, slotsUsed := slots, state := { n.state with job := exclusive } }

def assignJob (n : Node) (id : String) (slots : Int) : Node :=
  let used := wrap64 (n.slotsUsed + slots)
  n.occupy (n.assignedJobs ++ [id]) used (n.state.job || n.slotsTotal ≤ used)

def releaseJob (n : Node) (id : String) (slots : Int) : Node :=
  let jobs := n.assignedJobs.erase id
  n.occupy jobs (max (wrap64 (n.slotsUsed - slots)) 0) (n.state.job && jobs ≠ [])

def applyStateString (n : Node) (s : String) : Node :=
  let flags := match s with
    | "free" => n.state.admin
    | "busy" => { n.state.admin with busy := true }
    | "down" => { n.state.admin with down := true }
    | _ => n.state
  { n with state := { flags with job := flags.job || n.assignedJobs ≠ [] } }

/-- One `key=value` item of a status message. -/
def applyStatusItem (n : Node) (item : String) : Node :=
  match Text.cut '=' item with
  | none => n
  | some (key, val) =>
    let n := { n with status := n.status.insert key val }
    match key with
    | "state" => n.applyStateString val
    | "ncpus" =>
      let np := scanInto n.numProcs val
      { n with numProcs := np, slotsTotal := np }
    | "np" => { n with slotsTotal := scanInto n.slotsTotal val }
    | _ => n

/-- A node that was heard from is up unless an administrator took it offline. -/
def heard (n : Node) (now : Time) : Node :=
  { n with lastUpdate := now, state := { n.state with down := n.state.down && n.state.offline } }

def updateFromStatus (n : Node) (now : Time) (items : List String) : Node :=
  (items.foldl applyStatusItem n).heard now

def markDown (n : Node) : Node := { n with state := { n.state with down := true } }

@[simp] theorem assignJob_assignedJobs (n : Node) (id : String) (slots : Int) :
    (n.assignJob id slots).assignedJobs = n.assignedJobs ++ [id] := rfl

@[simp] theorem releaseJob_assignedJobs (n : Node) (id : String) (slots : Int) :
    (n.releaseJob id slots).assignedJobs = n.assignedJobs.erase id := rfl

@[simp] theorem markDown_assignedJobs (n : Node) :
    n.markDown.assignedJobs = n.assignedJobs := rfl

theorem applyStatusItem_assignedJobs (n : Node) (item : String) :
    (n.applyStatusItem item).assignedJobs = n.assignedJobs := by
  unfold applyStatusItem
  split
  · rfl
  · split <;> rfl

@[simp] theorem updateFromStatus_assignedJobs (n : Node) (now : Time) (items : List String) :
    (n.updateFromStatus now items).assignedJobs = n.assignedJobs := by
  have kept : (items.foldl applyStatusItem n).assignedJobs = n.assignedJobs := by
    induction items generalizing n with
    | nil => rfl
    | cons item items ih => exact (ih _).trans (n.applyStatusItem_assignedJobs item)
  exact kept

end Node

/-- `node.Manager`: the nodes by name. -/
abbrev NodeManager := Assoc Node

namespace NodeManager

/-- `AddNode`: an existing node is returned as it is. -/
def addNode (m : NodeManager) (name : String) (numProcs : Int) : NodeManager :=
  if name ∈ m then m else m.insert name (.newNode numProcs)

def onNode (m : NodeManager) (name : String) (change : Node → Node) : NodeManager :=
  match m.lookup name with
  | none => m
  | some n => m.insert name (change n)

theorem lookup_onNode (m : NodeManager) (name : String) (change : Node → Node) (x : String) :
    (m.onNode name change).lookup x = (m.lookup x).map (if x = name then change else id) := by
  rw [onNode]
  cases found : m.lookup name with
  | none =>
    by_cases here : x = name
    · subst here
      simp [found]
    · simp [here]
  | some n =>
    by_cases here : x = name
    · subst here
      simp [found]
    · simp [here]

end NodeManager

end OpenTorque.Pbs
