import OpenTorque.Sched.World
import OpenTorque.Server.Release

/-! Whether a cycle fills a node beyond its capacity. Nothing in a cycle takes a job off a
node, so a cycle leaves every node within its capacity exactly if each of its requests that
is granted finds room on the nodes that the server puts the job on. The argument is made
once, for any `Meter` of what a node holds. -/
namespace OpenTorque.Pbs

def Job.Ready (j : Job) : Prop := j.state = .queued ∨ j.state = .provisioning

instance (j : Job) : Decidable j.Ready := inferInstanceAs (Decidable (_ ∨ _))

/-- The sum of `jobGenericReqs` under one name. -/
def Job.genericReq (j : Job) (resc : String) : Int :=
  ((j.genericReqs.filter (·.1 = resc)).map (·.2)).sum

/-- An account of what the jobs of a node take of it. -/
structure Meter where
  charge : Job → Int
  /-- What an assigned id that is no job any more counts for. -/
  absent : Int
  capacity : Node → Int
  charge_nonneg : ∀ j, 0 ≤ charge j
  charge_congr : ∀ {j k : Job}, k.resourceReq = j.resourceReq → charge k = charge j
  capacity_assignJob : ∀ n id slots, capacity (n.assignJob id slots) = capacity n

namespace Server
variable {s : Server} {env : Env} {given dest : String}

/-- What a request to run a job on a node can end in. -/
inductive RunOutcome (s : Server) (env : Env) (given dest : String) : Handled → Prop where
  | refused (code : Nat) : RunOutcome s env given dest (s.refuse code)
  | failed (found : s.getJob env given = some (key, j)) (comment : String) (code : Nat) :
      RunOutcome s env given dest ((s.putJob key (j.setComment comment)).refuse code)
  | run (found : s.getJob env given = some (key, j)) (ready : j.Ready)
      (node : s.nodeMgr.lookup (Text.before '/' dest) = some n) :
      RunOutcome s env given dest (s.runOnNode env key j (Text.before '/' dest) n).accept

theorem runJob_outcome (s : Server) (env : Env) (given : String) (named : dest ≠ "") :
    RunOutcome s env given dest (s.handleRunJob env given dest) := by
  rw [handleRunJob]
  split
  · exact .refused _
  cases found : s.getJob env given with
  | none => exact .refused _
  | some entry =>
    obtain ⟨key, j⟩ := entry
    simp only
    split
    · exact .refused _
    rename_i ready
    have waiting : j.Ready := by
      rw [Job.Ready]
      tauto
    split
    · exact .refused _
    cases s.checkDependencies env j with
    | unmet => exact .refused _
    | failed comment => exact .failed found comment _
    | met =>
      cases node : s.nodeMgr.lookup (Text.before '/' dest) with
      | none => exact .refused _
      | some n => exact .run found waiting node

/-- The nodes that `handleRunJob` assigns a job to once it has found one. -/
def nodesTaken (s : Server) (env : Env) (j : Job) (name : String) : List String :=
  let (nodeCount, ppn) := j.nodeRequest
  if 1 < nodeCount then
    let selected := s.selectNodes env name nodeCount ppn
    if (selected.length : Int) < nodeCount then [] else selected
  else [name]

/-- The job that a granted `RunJob` is for, and the nodes it is assigned to. -/
def placement (s : Server) : Env × Request → Option (String × Job × List String)
  | (env, .runJob given dest) =>
    if (s.handleRunJob env given dest).reply = .ok ∧ dest ≠ "" then
      (s.getJob env given).map fun (key, j) => (key, j, s.nodesTaken env j (Text.before '/' dest))
    else none
  | _ => none

/-- The processors that the assigned jobs of a node asked for. -/
def cpusAssigned (s : Server) (n : Node) : Int :=
  (n.assignedJobs.map fun id => (s.job id).elim 1 Job.requestedCPUs).sum

/-- What the assigned jobs of a node asked of a generic resource. -/
def gresAssigned (s : Server) (n : Node) (resc : String) : Int :=
  (n.assignedJobs.map fun id => (s.job id).elim 0 (·.genericReq resc)).sum

/-- No node has more of a generic resource assigned than its capacity. -/
def GResWithin (s : Server) : Prop :=
  ∀ name n, s.nodeMgr.lookup name = some n → ∀ resc,
    s.gresAssigned n resc ≤ (n.gres.lookup resc).getD 0

/-- No node has more of its processors assigned than it has. -/
def CPUsWithin (s : Server) : Prop :=
  ∀ name n, s.nodeMgr.lookup name = some n → s.cpusAssigned n ≤ n.numProcs

instance : Decidable s.CPUsWithin :=
  inferInstanceAs (Decidable (∀ name n, s.nodeMgr.lookup name = some n → s.cpusAssigned n ≤ n.numProcs))

/-- Each node that a granted request puts its job on has the processors for it. -/
def LeavesCPUs (s : Server) (asked : Env × Request) : Prop :=
  ∀ placed ∈ s.placement asked, ∀ name ∈ placed.2.2, ∀ n ∈ s.nodeMgr.lookup name,
    s.cpusAssigned n + placed.2.1.requestedCPUs ≤ n.numProcs

instance (asked : Env × Request) : Decidable (s.LeavesCPUs asked) :=
  inferInstanceAs (Decidable (∀ placed ∈ _, _))

/-- Each node that a granted request puts its job on has the generic resources for it. -/
def LeavesGRes (s : Server) (asked : Env × Request) : Prop :=
  ∀ placed ∈ s.placement asked, ∀ name ∈ placed.2.2, ∀ n ∈ s.nodeMgr.lookup name,
    ∀ req ∈ placed.2.1.genericReqs,
      s.gresAssigned n req.1 + placed.2.1.genericReq req.1 ≤ (n.gres.lookup req.1).getD 0

instance (asked : Env × Request) : Decidable (s.LeavesGRes asked) :=
  inferInstanceAs (Decidable (∀ placed ∈ _, _))

end Server

namespace Meter
variable {m : Meter} {s t : Server} {env : Env} {given dest key : String} {j k : Job}
  {names : List String} {slots port : Int}

def due (m : Meter) (s : Server) (id : String) : Int := (s.job id).elim m.absent m.charge

def load (m : Meter) (s : Server) (n : Node) : Int := (n.assignedJobs.map (m.due s)).sum

/-- No node is filled beyond its capacity. -/
def Within (m : Meter) (s : Server) : Prop :=
  ∀ name n, s.nodeMgr.lookup name = some n → m.load s n ≤ m.capacity n

/-- There is room on the nodes for one more job of that charge. -/
def Room (m : Meter) (s : Server) (j : Job) (names : List String) : Prop :=
  ∀ name ∈ names, ∀ n ∈ s.nodeMgr.lookup name, m.load s n + m.charge j ≤ m.capacity n

/-- A job that is replaced by one with the same resource list owes what it owed. -/
theorem due_of_update (present : s.job key = some j)
    (job : t.job = Function.update s.job key (some k)) (same : k.resourceReq = j.resourceReq) :
    m.due t = m.due s := by
  funext id
  rw [due, due, job]
  by_cases here : id = key
  · rw [here, Function.update_self, present, Option.elim_some, Option.elim_some, m.charge_congr same]
  · rw [Function.update_of_ne here]

theorem load_assignJob (n : Node) : m.load s (n.assignJob key slots) = m.load s n + m.due s key := by
  simp [load]

theorem within_congr (due : m.due t = m.due s) (nodes : t.nodeMgr = s.nodeMgr) :
    m.Within t ↔ m.Within s := by
  simp only [Within, load, due, nodes]

/-- A job that is started owes its charge on every node it is put on. -/
theorem within_start (nodup : names.Nodup) (present : s.job key = some j)
    (same : k.resourceReq = j.resourceReq) :
    m.Within (s.start env key k names slots port) ↔ m.Within s ∧ m.Room s j names := by
  have due : m.due (s.start env key k names slots port) = m.due s :=
    due_of_update present Server.job_start same
  have nodes (name : String) : (s.start env key k names slots port).nodeMgr.lookup name =
      (s.nodeMgr.lookup name).map fun n => if name ∈ names then n.assignJob key slots else n :=
    Server.lookup_assignOn nodup name
  have owed : m.due s key = m.charge j := by rw [Meter.due, present, Option.elim_some]
  constructor
  · intro within
    have each (name : String) (n : Node) (found : s.nodeMgr.lookup name = some n) :
        m.load s (if name ∈ names then n.assignJob key slots else n) ≤
          m.capacity (if name ∈ names then n.assignJob key slots else n) := by
      have bound := within name _ (by rw [nodes, found, Option.map_some])
      rwa [load, due] at bound
    have nonneg := m.charge_nonneg j
    refine ⟨fun name n found => ?_, fun name member n found => ?_⟩
    · have bound := each name n found
      split at bound
      · rw [load_assignJob, m.capacity_assignJob, owed] at bound
        omega
      · exact bound
    · have bound := each name n found
      rwa [if_pos member, load_assignJob, m.capacity_assignJob, owed] at bound
  · rintro ⟨within, room⟩ name n found
    rw [nodes] at found
    obtain ⟨before, known, rfl⟩ := Option.map_eq_some_iff.mp found
    rw [load, due, ← load]
    split
    case isTrue member =>
      rw [load_assignJob, m.capacity_assignJob, owed]
      exact room name member before known
    case isFalse => exact within name before known

theorem within_runOnNode (present : s.job key = some j) (name : String) (n : Node) :
    m.Within (s.runOnNode env key j name n) ↔ m.Within s ∧ m.Room s j (s.nodesTaken env j name) := by
  simp only [Server.runOnNode, Server.nodesTaken]
  split
  · rw [Server.runJobMulti]
    split
    · simp [Room]
    · exact within_start (s.selectNodes_nodup ..) present rfl
  · exact within_start (List.nodup_singleton name) present rfl

/-- A request to run a job keeps the bound exactly if it was kept and, where the request is
granted, there is room for the job. -/
theorem within_handleRunJob (named : dest ≠ "") : m.Within (s.handleRunJob env given dest).server ↔
    m.Within s ∧ ∀ placed ∈ s.placement (env, .runJob given dest), m.Room s placed.2.1 placed.2.2 := by
  have outcome := s.runJob_outcome env given named
  rw [Server.placement]
  generalize s.handleRunJob env given dest = handled at outcome ⊢
  cases outcome with
  | refused code => simp [Server.refuse, Server.answer]
  | @failed key j found comment code =>
    have steady : m.Within (s.putJob key (j.setComment comment)) ↔ m.Within s :=
      within_congr (due_of_update (Server.job_of_getJob found) Server.job_putJob rfl) rfl
    simpa [Server.refuse, Server.answer] using steady
  | run found ready node =>
    rw [if_pos ⟨rfl, named⟩, found, Option.map_some]
    simpa [Server.accept, Server.answer] using within_runOnNode (Server.job_of_getJob found) _ _

theorem within_counted {v : Sched.View} : m.Within (Sched.counted v s) ↔ m.Within s := by
  obtain ⟨jobMgr, nodeMgr⟩ := Sched.counted_managers v s
  refine within_congr (funext fun id => ?_) nodeMgr
  rw [due, due, Server.job, Server.job, jobMgr]

end Meter

/-- `jobRequestedCPUs` against `NumProcs`. -/
def cpuMeter : Meter where
  charge := Job.requestedCPUs
  absent := 1
  capacity := Node.numProcs
  charge_nonneg j := j.requestedCPUs_isCount.1.le
  charge_congr same := Job.requestedCPUs_congr same
  capacity_assignJob _ _ _ := rfl

theorem Job.genericReq_nonneg (j : Job) (resc : String) : 0 ≤ j.genericReq resc := by
  refine List.sum_nonneg fun x member => ?_
  obtain ⟨⟨name, amount⟩, kept, rfl⟩ := List.mem_map.mp member
  obtain ⟨e, -, read⟩ := List.mem_filterMap.mp (List.mem_filter.mp kept).1
  dsimp only at read
  split at read
  · cases read
  · obtain ⟨n, positive, same⟩ := Option.map_eq_some_iff.mp read
    cases same
    have bound : 0 < amount := by simpa using (Option.filter_eq_some_iff.mp positive).2
    exact bound.le

/-- `jobGenericReqs` under one name against the node's `GRes`. -/
def gresMeter (resc : String) : Meter where
  charge j := j.genericReq resc
  absent := 0
  capacity n := (n.gres.lookup resc).getD 0
  charge_nonneg j := j.genericReq_nonneg resc
  charge_congr same := by simp only [Job.genericReq, Job.genericReqs, same]
  capacity_assignJob _ _ _ := rfl

namespace Server
variable {s : Server} {env : Env} {given dest : String}

theorem gresWithin_iff : s.GResWithin ↔ ∀ resc, (gresMeter resc).Within s :=
  ⟨fun within resc name n found => within name n found resc,
    fun within name n found resc => within resc name n found⟩

/-- A resource that the job does not ask for stays as it is. -/
theorem leavesGRes_iff (within : s.GResWithin) (asked : Env × Request) : s.LeavesGRes asked ↔
    ∀ resc, ∀ placed ∈ s.placement asked, (gresMeter resc).Room s placed.2.1 placed.2.2 := by
  constructor
  · intro leaves resc placed given name member n found
    by_cases wanted : ∃ req ∈ placed.2.1.genericReqs, req.1 = resc
    · obtain ⟨req, listed, rfl⟩ := wanted
      exact leaves placed given name member n found req listed
    · have none : placed.2.1.genericReq resc = 0 := by
        rw [Job.genericReq, List.filter_eq_nil_iff.mpr fun req listed => by
          simpa using fun same => wanted ⟨req, listed, same⟩]
        rfl
      have bound := within name n found resc
      show s.gresAssigned n resc + placed.2.1.genericReq resc ≤ _
      rwa [none, add_zero]
  · exact fun room placed given name member n found req _ => room req.1 placed given name member n found

theorem gresWithin_handleRunJob (named : dest ≠ "") :
    (s.handleRunJob env given dest).server.GResWithin ↔
      s.GResWithin ∧ s.LeavesGRes (env, .runJob given dest) := by
  rw [gresWithin_iff, forall_congr' fun resc => Meter.within_handleRunJob named, forall_and,
    ← gresWithin_iff]
  exact and_congr_right fun within => (leavesGRes_iff within _).symm

theorem gresWithin_counted {v : Sched.View} : (Sched.counted v s).GResWithin ↔ s.GResWithin := by
  rw [gresWithin_iff, gresWithin_iff, forall_congr' fun resc => Meter.within_counted]

end Server

end OpenTorque.Pbs

namespace OpenTorque.Sched
open Pbs Transition

section Requests
variable {F : Type} [GoFloat F] {cfg : Config} {limited : Bool} {v : View} {queues : List QueueInfo}
  {usage : Assoc F} {s : Server} {fuel : Nat}

/-- The requests that the main loop sends, in the order in which it sends them. -/
def loopRequests (cfg : Config) (limited : Bool) (v : View) (queues : List QueueInfo) :
    Nat → Nat → Progress F → List (Env × Request)
  | 0, _, _ => []
  | fuel + 1, attempt, p =>
    (Session.request ⟨cfg, limited, v, queues, attempt, p⟩ (fuel + 1)).toList ++
      match turn cfg limited v queues (fuel + 1) attempt p with
      | some (.go p) => loopRequests cfg limited v queues fuel (attempt + 1) p
      | _ => []

/-- The `RunJob` requests of a whole cycle. -/
def cycleRequests (cfg : Config) (limited : Bool) (v : View) (fuel : Nat) (usage : Assoc F)
    (s : Server) : List (Env × Request) :=
  loopRequests cfg limited v (cycleQueues cfg v usage s) fuel 0 (.first cfg v usage s)

def served (s : Server) (asked : Env × Request) : Server := (s.handle asked.1 asked.2).server

/-- The loop leaves the server as its requests do. -/
theorem loop_served {attempt : Nat} {p out : Progress F}
    (ended : loop cfg limited v queues fuel attempt p = some out) :
    out.server = (loopRequests cfg limited v queues fuel attempt p).foldl served p.server := by
  induction fuel generalizing attempt p with
  | zero => cases ended
  | succ fuel ih =>
    rw [loop] at ended
    rw [loopRequests, List.foldl_append]
    have first {after : Turn F} (turned : turn cfg limited v queues (fuel + 1) attempt p = some after) :
        after.progress.server = (Session.request ⟨cfg, limited, v, queues, attempt, p⟩
          (fuel + 1)).toList.foldl served p.server := by
      rw [Session.turn_server (c := ⟨cfg, limited, v, queues, attempt, p⟩) turned]
      cases Session.request ⟨cfg, limited, v, queues, attempt, p⟩ (fuel + 1) <;> rfl
    split at ended
    · cases ended
    case h_2 turned =>
      cases ended
      rw [turned, ← first turned]
      rfl
    case h_3 turned =>
      rw [turned, ← first turned]
      exact ih ended

theorem mem_loopRequests {attempt : Nat} {p : Progress F} {asked : Env × Request}
    (sent : asked ∈ loopRequests cfg limited v queues fuel attempt p) :
    ∃ given dest, asked.2 = .runJob given dest ∧ dest ≠ "" := by
  induction fuel generalizing attempt p with
  | zero => cases sent
  | succ fuel ih =>
    rw [loopRequests, List.mem_append, Option.mem_toList] at sent
    rcases sent with now | later
    · obtain ⟨j, node, run⟩ := Session.request_runJob now
      exact ⟨_, _, run, by simp [String.append_eq_empty_iff]⟩
    · split at later
      · exact ih later
      · cases later

/-- What holds after a cycle exactly if it held before and each request met a condition. -/
theorem runCycle_iff {I : Server → Prop} {P : Server → Env × Request → Prop} {out : Outcome F}
    (counts : I (counted v s) ↔ I s)
    (exact_ : ∀ t env given dest, dest ≠ "" → (I (t.handleRunJob env given dest).server ↔
      I t ∧ P t (env, .runJob given dest)))
    (ended : runCycle cfg limited v fuel usage s = some out) :
    I out.server ↔ I s ∧ Along served P (counted v s) (cycleRequests cfg limited v fuel usage s) := by
  rw [runCycle_eq] at ended
  obtain ⟨p, looped, rfl⟩ := Option.map_eq_some_iff.mp ended
  rw [loop_served looped, ← counts]
  refine Along.foldl_iff fun t asked sent => ?_
  obtain ⟨given, dest, run, named⟩ := mem_loopRequests sent
  obtain ⟨env, request⟩ := asked
  obtain rfl : request = .runJob given dest := run
  exact exact_ t env given dest named

end Requests

theorem name_debited {F : Type} {j : JobInfo} {nodes : List (NodeInfo F)} {name : String} :
    (debited nodes name j).map (·.name) = nodes.map (·.name) := by
  rw [debited, List.map_map]
  refine List.map_congr_left fun n _ => ?_
  simp only [Function.comp_apply]
  split <;> rfl

theorem runRequest_outcome {F : Type} (t : Server) (env : Env) (j : JobInfo) (node : NodeInfo F) :
    t.RunOutcome env j.id (node.name ++ "/0") (t.handle env (runRequest j node)) := by
  refine t.runJob_outcome env j.id fun empty => ?_
  have length := congrArg String.length empty
  simp at length

/-- What the scheduler takes off a node for a job. -/
def cpusDemanded (j : Job) : Int := if JobInfo.cpusRead j = 0 then 1 else JobInfo.cpusRead j

theorem demand_parseJobInfo (j : Job) (id : String) (order : RangeOrder) :
    (parseJobInfo (j.status id order)).demand = cpusDemanded j := by
  rw [JobInfo.demand, cpusDemanded, JobInfo.parseJobInfo_cpuReq]

section Runs

/-- A node of two processors and a queued job that asks for four on one node. -/
def ppnRun : List (Env × Step) :=
  atOnce [.manager (.createQueue "batch" []),
    .manager (.createNode "n1" [{ name := "np", value := "2" }])] ++
  [reports "n1" ["state=free"]] ++
  atOnce [.queueJob "alice@host" "batch"
    [{ name := "Resource_List", resc := "nodes", hasResc := true, value := "1:ppn=4" }],
    .commit "0.server"]

/-- Three free nodes of four processors, the third with that many GPUs, and a job that asks for
a GPU on each of its nodes. -/
def gpuRun (count gpus : String) : List (Env × Step) :=
  atOnce [.manager (.createQueue "batch" []), equipped "n1" "1", equipped "n2" "1",
    equipped "n3" gpus] ++
  [reports "n1" ["state=free"], reports "n2" ["state=free"], reports "n3" ["state=free"]] ++
  atOnce [.queueJob "alice@host" "batch"
    [{ name := "Resource_List", resc := "nodes", hasResc := true, value := count },
      { name := "Resource_List", resc := "gpu", hasResc := true, value := "1" }], .commit "0.server"]
where
  equipped (name gpus : String) : Request :=
    .manager (.createNode name [{ name := "np", value := "4" },
      { name := "resources_available", resc := "gpu", hasResc := true, value := gpus }])

theorem runs_on_two : (runCycle {} false (.at 2) 9 (∅ : Assoc Unit)
    (fromEmpty (gpuRun "2:ppn=2" "1"))).any (fun out =>
      (out.server.job "0.server").any (·.execHost = "n3/0+n2/0")) = true := by
  decide +kernel

def Unassigned (s : Server) : Prop :=
  ∀ name n, s.nodeMgr.lookup name = some n → n.assignedJobs = [] ∧
    ∀ resc c, n.gres.lookup resc = some c → 0 ≤ c ∧ c ≤ maxInt

instance (s : Server) : Decidable (Unassigned s) :=
  inferInstanceAs (Decidable (∀ name n, s.nodeMgr.lookup name = some n → _ ∧ _))

theorem gresWithin_of_idle {s : Server} (idle : Unassigned s) : s.GResWithin := by
  intro name n found resc
  obtain ⟨empty, capacity⟩ := idle name n found
  rw [Server.gresAssigned, empty, List.map_nil, List.sum_nil]
  cases declared : n.gres.lookup resc with
  | none => exact le_refl 0
  | some c => exact (capacity resc c declared).1

end Runs

end OpenTorque.Sched
