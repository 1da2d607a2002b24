import OpenTorque.Sched.Reading
import OpenTorque.Server.Assignment

/-! Which nodes a job is placed on. -/
namespace OpenTorque.Sched
open Pbs

def nodesOf {F : Type} [GoFloat F] (s : Server) (env : Env) : List (NodeInfo F) :=
  (s.nodeObjects env (s.allNodes env)).map parseNodeInfo

section Candidates
variable {F : Type} [GoFloat F] {s : Server} {env : Env} {cfg : Config} {info : ServerInfo F}
  {j : JobInfo} {node : NodeInfo F}

theorem mem_nodesOf : node ∈ nodesOf s env ↔
    ∃ name n, s.nodeMgr.lookup name = some n ∧ node = parseNodeInfo (s.nodeStatus env name n) := by
  simp only [nodesOf, Server.nodeObjects, List.mem_map, List.mem_filterMap, Option.map_eq_some_iff]
  constructor
  · rintro ⟨_, ⟨name, -, n, found, rfl⟩, rfl⟩
    exact ⟨name, n, found, rfl⟩
  · rintro ⟨name, n, found, rfl⟩
    have known : name ∈ s.allNodes env := by simpa [Server.allNodes] using Assoc.mem_of_lookup found
    exact ⟨_, ⟨name, known, n, found, rfl⟩, rfl⟩

/-- One record for each node: the snapshot has every name once. -/
theorem nodup_nodesOf (s : Server) (env : Env) :
    ((nodesOf s env : List (NodeInfo F)).map (·.name)).Nodup := by
  rw [nodesOf, Server.nodeObjects, List.map_map, List.map_filterMap]
  refine List.Nodup.filterMap ?_ (Assoc.nodup_range _ _)
  -- each object is named after the node it was made for
  have named : ∀ key name, name ∈ ((s.nodeMgr.lookup key).map (s.nodeStatus env key)).map
      ((·.name) ∘ (parseNodeInfo : StatusObject → NodeInfo F)) → name = key := by
    simp only [Option.mem_def, Option.map_eq_some_iff]
    rintro key name ⟨_, ⟨n, -, rfl⟩, rfl⟩
    exact parseNodeInfo_name _
  intro key key' name first second
  exact (named key name first).symm.trans (named key' name second)

theorem mem_candidates (chosen : findNodeForJob cfg info j = some node) :
    node ∈ info.nodes ∧ admissible info.queues j node = true ∧ j.demand ≤ node.freeCPUs := by
  rw [findNodeForJob] at chosen
  split at chosen
  · cases chosen
  · have listed := List.mem_of_mem_head? chosen
    rw [stableSort, List.mem_insertionSort, candidates, List.mem_filter] at listed
    simpa using listed

end Candidates

/-- The verdict of `nodeSchedulable` on the flags that are set. -/
def scan (flags : List (Bool × String)) : Bool := schedulableFlags ((flags.filter (·.1)).map (·.2))

theorem scan_cons (set : Bool) (name : String) (flags : List (Bool × String)) :
    scan ((set, name) :: flags) =
      if set then
        if Text.trimSpace name ∈ blockedStates then false
        else if Text.trimSpace name = "job-exclusive" then true else scan flags
      else scan flags := by
  cases set <;> rfl

theorem scan_named (f : NodeFlags) : scan f.named = (f.job && !f.down && !f.offline && !f.busy) := by
  have trimmed : ∀ name ∈ f.named.map (·.2), Text.trimSpace name = name := by
    simp only [NodeFlags.named, List.map_cons, List.map_nil]
    decide
  simp only [NodeFlags.named, List.map_cons, List.map_nil, List.forall_mem_cons] at trimmed
  obtain ⟨down, offline, busy, job, reserve, drain, excl, unknown, -⟩ := trimmed
  simp only [NodeFlags.named, scan_cons, down, offline, busy, job, reserve, drain, excl, unknown]
  simp only [blockedStates, scan]
  cases f.down <;> cases f.offline <;> cases f.busy <;> cases f.job <;>
    simp [schedulableFlags]

/-- The flags under which `nodeSchedulable` lets a node pass. -/
def schedulable (f : NodeFlags) : Bool := f = {} || (f.job && !f.down && !f.offline && !f.busy)

theorem nodeSchedulable_stateName {F : Type} {node : NodeInfo F} {f : NodeFlags}
    (state : node.state = f.stateName) : nodeSchedulable node = schedulable f := by
  have clean : ∀ name ∈ (f.named.filter (·.1)).map (·.2), ',' ∉ name.toList ∧ name ≠ "free" := by
    intro name member
    have listed : name ∈ f.named.map (·.2) := (List.filter_sublist.map _).subset member
    have all : ∀ name ∈ f.named.map (·.2), ',' ∉ name.toList ∧ name ≠ "free" := by
      simp only [NodeFlags.named, List.map_cons, List.map_nil]
      decide
    exact all name listed
  rw [nodeSchedulable, state, NodeFlags.stateName]
  cases names : (f.named.filter (·.1)).map (·.2) with
  | nil =>
    have unset : f = {} := by
      obtain ⟨down, offline, reserve, job, busy, unknown, drain, excl⟩ := f
      simp only [NodeFlags.named, List.map_eq_nil_iff, List.filter_eq_nil_iff,
        List.forall_mem_cons] at names
      simp_all
    simp [unset, schedulable]
  | cons name rest =>
    rw [names] at clean
    have flags : Text.split ',' (Text.join "," (name :: rest)) = name :: rest :=
      Text.split_join (by decide) (fun part member => (clean part member).1) (by simp)
    have named : Text.join "," (name :: rest) ≠ "free" := by
      intro same
      rw [same, show Text.split ',' "free" = ["free"] by decide] at flags
      exact (clean name (by simp)).2 (List.cons.inj flags).1.symm
    have set : f ≠ {} := by
      rintro rfl
      simp [NodeFlags.named] at names
    simp only [named, flags, decide_false, Bool.false_or, schedulable, set]
    rw [← names]
    exact scan_named f

/-- An administrator or the node check keeps new jobs from the node. -/
def Closed (f : NodeFlags) : Prop :=
  f.down = true ∨ f.offline = true ∨ f.drain = true ∨ f.excl = true

section Flagged
variable {F : Type} [GoFloat F] {s : Server} {env : Env} {n : Node} {name : String}

/-- Neither the scheduler nor the server puts a job on the node. The anchor of a
multi-node job is the node that `RunJob` names. -/
structure Avoided (F : Type) [GoFloat F] (s : Server) (name : String) : Prop where
  found : ∀ cfg env queues j (node : NodeInfo F),
    findNodeForJob cfg { queues, nodes := nodesOf s env } j = some node → node.name ≠ name
  added : ∀ env anchor count ppn, anchor ≠ name → name ∉ s.selectNodes env anchor count ppn

theorem avoided_of_unschedulable (found : s.nodeMgr.lookup name = some n) (closed : Closed n.state)
    (shut : schedulable n.state = false) : Avoided F s name where
  found cfg env queues j node chosen same := by
    obtain ⟨listed, fits, -⟩ := mem_candidates chosen
    obtain ⟨key, m, known, rfl⟩ := mem_nodesOf.mp listed
    obtain rfl : key = name := (parseNodeInfo_name _).symm.trans same
    obtain rfl : m = n := Option.some.inj (known.symm.trans found)
    have passed : nodeSchedulable (parseNodeInfo (s.nodeStatus env key m) : NodeInfo F) = true := by
      simp only [admissible, Bool.and_eq_true] at fits
      exact fits.1.1.1.1.1
    rw [nodeSchedulable_stateName (parseNodeInfo_state s env key m), shut] at passed
    cases passed
  added env anchor count ppn other member := by
    rcases List.mem_cons.mp member with same | taken
    · exact other same.symm
    · have free := (List.mem_filter.mp (List.mem_of_mem_take taken)).2
      simp only [found, Option.any_some, Node.isFree, Bool.and_eq_true, decide_eq_true_eq] at free
      rw [free.2.1.1] at closed
      rcases closed with set | set | set | set <;> cases set

/-- A node alone in its cluster, and a job that asks for nothing of it. -/
theorem not_avoided_of_schedulable (open_ : schedulable n.state = true) :
    ¬ Avoided F ((Server.new "server" {}).onNodes (·.insert "n1" n)) "n1" := by
  intro avoided
  let s := (Server.new "server" {}).onNodes (·.insert "n1" n)
  let env : Env := { now := 0 }
  let node : NodeInfo F := parseNodeInfo (s.nodeStatus env "n1" n)
  have nodes : nodesOf s env = [node] := by
    have all : s.allNodes env = ["n1"] := rfl
    have found : s.nodeMgr.lookup "n1" = some n := AList.lookup_insert _
    simp [nodesOf, Server.nodeObjects, all, found, node]
  let j : JobInfo := { id := "0.server", cpuReq := min node.freeCPUs (-1) }
  have fits : admissible [] j node = true := by
    have passed := nodeSchedulable_stateName (parseNodeInfo_state (F := F) s env "n1" n)
    simp [admissible, passed, open_, j, queueForJob, queueNodeOK, nodeHasGRes, node]
  have demand : j.demand ≤ node.freeCPUs := by
    have negative : j.cpuReq ≠ 0 := by simp only [j]; omega
    rw [JobInfo.demand, if_neg negative]
    exact min_le_left _ _
  refine avoided.found {} env [] j node ?_ (parseNodeInfo_name _)
  rw [nodes, findNodeForJob]
  simp [tooFewNodes, j, candidates, fits, demand, stableSort]

end Flagged

/-- A closed node is left alone in every cluster exactly if it is not marked
`job-exclusive` without being down, offline or busy: that mark ends the scan of the
flags before `drain` and `excl` are seen. -/
theorem closed_node_avoided_iff (F : Type) [GoFloat F] (n : Node) (closed : Closed n.state) :
    (∀ (s : Server) (name : String), s.nodeMgr.lookup name = some n → Avoided F s name) ↔
      ¬ (n.state.job = true ∧ n.state.down = false ∧ n.state.offline = false ∧
        n.state.busy = false) := by
  have verdict : schedulable n.state = true ↔ n.state.job = true ∧ n.state.down = false ∧
      n.state.offline = false ∧ n.state.busy = false := by
    have set : n.state ≠ {} := by
      rintro same
      rw [same] at closed
      rcases closed with set | set | set | set <;> cases set
    simp [schedulable, set, and_assoc]
  rw [← verdict]
  constructor
  · intro avoided open_
    exact not_avoided_of_schedulable open_ (avoided _ "n1" (AList.lookup_insert _))
  · intro shut s name found
    exact avoided_of_unschedulable found closed (Bool.eq_false_iff.mpr shut)

section Runs

/-- A node of four processors runs one job and is drained while a second job waits. -/
def drainedRun : List (Env × Step) :=
  atOnce [.manager (.createQueue "batch" []),
    .manager (.createNode "n1" [{ name := "np", value := "4" }])] ++
  [reports "n1" ["state=free"]] ++
  atOnce [.queueJob "alice@host" "batch" [], .commit "0.server", .runJob "0.server" "n1"] ++
  [reports "n1" ["state=free"]] ++
  atOnce [.manager (.setNode "n1" [{ name := "state", value := "drain" }]),
    .queueJob "bob@host" "batch" [], .commit "1.server"]

def afterCycle (s : Server) (name : String) : Option (List String) :=
  (runCycle {} false (.at 2) 9 (∅ : Assoc Unit) s).map (·.server.assigned name)

/-- The cycle starts the second job on the drained node. -/
theorem drained_node_gets_job :
    ((fromEmpty drainedRun).nodeMgr.lookup "n1").any (·.state.drain) = true ∧
      (fromEmpty drainedRun).assigned "n1" = ["0.server"] ∧
      afterCycle (fromEmpty drainedRun) "n1" = some ["0.server", "1.server"] := by
  decide +kernel

/-- A node that was drained while it was empty is left alone. -/
theorem closed_node_avoided_iff_drained :
    Closed ({ drain := true } : NodeFlags) ∧
      Avoided Unit ((Server.new "server" {}).onNodes
        (·.insert "n1" { state := { drain := true } })) "n1" := by
  have closed : Closed ({ drain := true } : NodeFlags) := .inr (.inr (.inl rfl))
  exact ⟨closed, (closed_node_avoided_iff Unit { state := { drain := true } } closed).mpr
    (by simp) _ "n1" (AList.lookup_insert _)⟩

end Runs

end OpenTorque.Sched
