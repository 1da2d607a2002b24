import OpenTorque.Sched.Choice
import OpenTorque.Server.Release

/-! Jobs of several nodes: what the scheduler checks before it names an anchor, what the server
checks when it completes the set, and what it answers. -/
namespace OpenTorque.Sched

/-- The processors that a job of several nodes asks for on each. -/
def JobInfo.perNode (j : JobInfo) : Int := if j.ppn = 0 then j.demand else j.ppn

section Anchor
variable {F : Type} {queues : List QueueInfo} {j : JobInfo}

/-- A node that may be one of the job's nodes. -/
def partner (queues : List QueueInfo) (j : JobInfo) (n : NodeInfo F) : Bool :=
  admissible queues j n && j.perNode ≤ n.freeCPUs

/-- The anchor has the processors, and enough other nodes have them too. -/
def Anchored (queues : List QueueInfo) (j : JobInfo) (nodes : List (NodeInfo F)) (node : NodeInfo F) :
    Prop :=
  j.perNode ≤ node.freeCPUs ∧ ∃ front back, nodes = front ++ node :: back ∧
    j.nodes - 1 ≤ ((front ++ back).countP (partner queues j) : Int)

variable [GoFloat F] {cfg : Config} {nodes : List (NodeInfo F)} {node : NodeInfo F}

theorem partners_of_found (several : 1 < j.nodes)
    (found : findNodeForJob cfg { queues, nodes } j = some node) :
    j.nodes ≤ (nodes.countP (partner queues j) : Int) := by
  rw [findNodeForJob] at found
  split at found
  · cases found
  case isFalse enough =>
    simp only [tooFewNodes, several, decide_true, Bool.true_and, decide_eq_true_eq, not_lt] at enough
    exact enough

theorem anchored_of_found (several : 1 < j.nodes)
    (found : findNodeForJob cfg { queues, nodes } j = some node)
    (room : j.perNode ≤ node.freeCPUs) : Anchored queues j nodes node := by
  have enough := partners_of_found several found
  obtain ⟨front, back, rfl⟩ := List.append_of_mem (mem_candidates found).1
  refine ⟨room, front, back, rfl, ?_⟩
  rw [List.countP_append, List.countP_cons] at enough
  rw [List.countP_append]
  split at enough <;> push_cast at enough ⊢ <;> omega

@[simps]
def NodeInfo.withFree (n : NodeInfo F) (cpus : Int) : NodeInfo F :=
  { n with freeCPUs := cpus, dynamic := false }

omit [GoFloat F] in
theorem admissible_withFree (n : NodeInfo F) (cpus : Int) :
    admissible queues j (n.withFree cpus) = admissible queues j n := by
  have listed : hostListed (n.withFree cpus) = hostListed n := by
    funext entry
    simp only [hostListed, nodeHasGroup, NodeInfo.withFree_groups, NodeInfo.withFree_name]
  simp only [admissible, nodeSchedulable, nodeHasAllFeatures, nodeHasGroup, nodeHasGRes,
    queueNodeOK, listed, NodeInfo.withFree_state, NodeInfo.withFree_name,
    NodeInfo.withFree_properties, NodeInfo.withFree_groups, NodeInfo.withFree_gresTotal,
    NodeInfo.withFree_gresUsed, NodeInfo.withFree_jobs]

/-- A snapshot in which the node with the fewest free processors has too few. -/
def shortSnapshot (j : JobInfo) (n : NodeInfo F) : List (NodeInfo F) :=
  n.withFree j.demand :: List.replicate j.nodes.toNat (n.withFree j.perNode)

theorem exists_short (several : 1 < j.nodes) (short : j.demand < j.perNode) {n : NodeInfo F}
    (fits : admissible queues j n = true) : ∃ node,
      findNodeForJob {} { queues, nodes := shortSnapshot j n } j = some node ∧
        node.freeCPUs < j.perNode := by
  have fitsFree (cpus : Int) : admissible queues j (n.withFree cpus) = true :=
    (admissible_withFree n cpus).trans fits
  have enough : ¬ tooFewNodes { queues, nodes := shortSnapshot j n } j = true := by
    have count : j.nodes ≤ (countSchedulableForJob { queues, nodes := shortSnapshot j n } j j.perNode : Int) := by
      rw [countSchedulableForJob, shortSnapshot, List.countP_cons, List.countP_replicate,
        if_pos (by simp [fitsFree])]
      push_cast
      omega
    simp only [tooFewNodes, Bool.and_eq_true, decide_eq_true_eq, not_and, not_lt]
    exact fun _ => count
  have all : candidates { queues, nodes := shortSnapshot j n } j = shortSnapshot j n := by
    refine List.filter_eq_self.mpr fun m member => ?_
    rcases List.mem_cons.mp member with rfl | copy
    · simp [fitsFree]
    · rw [List.eq_of_mem_replicate copy]
      simp [fitsFree, short.le]
  have sorted : findNodeForJob {} { queues, nodes := shortSnapshot j n } j =
      (stableSort (preferred {}) (shortSnapshot j n)).head? := by
    rw [findNodeForJob, if_neg enough, all]
  have some : (stableSort (preferred {}) (shortSnapshot j n)).head? ≠ none := by
    rw [ne_eq, List.head?_eq_none_iff, stableSort, ← List.length_eq_zero_iff,
      List.length_insertionSort]
    simp [shortSnapshot]
  obtain ⟨node, found⟩ := Option.ne_none_iff_exists'.mp some
  refine ⟨node, sorted.trans found, ?_⟩
  obtain ⟨before, after, shape, strict, -⟩ := (preferred_strictWeak rfl).head_insertionSort found
  -- the first of the list is in front of all, so nothing stands before the node that was found
  cases before with
  | nil =>
    obtain ⟨rfl, -⟩ := List.cons.inj shape
    exact short
  | cons first before =>
    obtain ⟨rfl, rest⟩ := List.cons.inj shape
    have roomy : node = n.withFree j.perNode :=
      List.eq_of_mem_replicate (n := j.nodes.toNat) (by rw [rest]; simp)
    have wrong := strict _ List.mem_cons_self
    simp [roomy, preferred] at wrong
    omega

/-- Whatever the snapshot, a job of several nodes gets an anchor with the processors it asks
for exactly if the number the scheduler compares is no smaller, or no node suits the job. -/
theorem anchored_iff (several : 1 < j.nodes) :
    (∀ (cfg : Config) (nodes : List (NodeInfo F)) (node : NodeInfo F),
      findNodeForJob cfg { queues, nodes } j = some node → Anchored queues j nodes node) ↔
      j.perNode ≤ j.demand ∨ ∀ n : NodeInfo F, admissible queues j n = false := by
  constructor
  · intro always
    by_contra both
    obtain ⟨short, suits⟩ := not_or.mp both
    obtain ⟨n, fits⟩ := not_forall.mp suits
    obtain ⟨node, found, few⟩ := exists_short several (not_le.mp short) (by simpa using fits)
    exact absurd (always _ _ node found).1 (not_le.mpr few)
  · rintro condition cfg nodes node found
    obtain ⟨-, fits, room⟩ := mem_candidates found
    rcases condition with covered | none
    · exact anchored_of_found several found (covered.trans room)
    · simp [none node] at fits

end Anchor
end OpenTorque.Sched

namespace OpenTorque.Pbs.Server
variable {s t : Server} {env : Env} {key first given dest : String} {job : Job} {n : Node}
  {count ppn port : Int}

def HasRoomFor (s : Server) (ppn : Int) (name : String) : Prop :=
  ∃ n, s.nodeMgr.lookup name = some n ∧ n.isFree = true ∧ ppn ≤ n.availableSlots

/-- The job was put on exactly that many distinct nodes, each of which had room for it. -/
def WhollyPlaced (s t : Server) (key : String) (count ppn : Int) : Prop :=
  ∃ names : List String, names.Nodup ∧ (names.length : Int) = count ∧
    (∀ name ∈ names, s.HasRoomFor ppn name) ∧
    (∀ name, t.nodeMgr.lookup name =
      (s.nodeMgr.lookup name).map fun n => if name ∈ names then n.assignJob key ppn else n) ∧
    ∃ k, t.job key = some k ∧ k.state = .running ∧ k.execHost = execHostOf names

theorem assignJob_ne (n : Node) (key : String) (slots : Int) : n.assignJob key slots ≠ n := by
  intro same
  have jobs : n.assignedJobs ++ [key] = n.assignedJobs := congrArg Node.assignedJobs same
  simp at jobs

/-- There are enough nodes beside the anchor. -/
def Completable (s : Server) (env : Env) (first : String) (count ppn : Int) : Prop :=
  count ≤ (s.spares env first ppn).length + 1

theorem length_selectNodes (several : 1 < count) : count ≤ ((s.selectNodes env first count ppn).length : Int) ↔
    s.Completable env first count ppn := by
  rw [selectNodes_eq, List.length_cons, List.length_take, Completable]
  push_cast
  omega

theorem length_selectNodes_eq (several : 1 < count) (enough : s.Completable env first count ppn) :
    ((s.selectNodes env first count ppn).length : Int) = count := by
  rw [Completable] at enough
  rw [selectNodes_eq, List.length_cons, List.length_take]
  push_cast
  omega

theorem runJobMulti_few (several : 1 < count) (few : ¬ s.Completable env first count ppn) :
    s.runJobMulti env key job first port count ppn = s := by
  rw [runJobMulti, if_pos (not_le.mp (mt (length_selectNodes several).mp few))]

theorem runJobMulti_enough (several : 1 < count) (enough : s.Completable env first count ppn) :
    s.runJobMulti env key job first port count ppn =
      s.start env key (sized job count ppn) (s.selectNodes env first count ppn) ppn port := by
  rw [runJobMulti, if_neg (not_lt.mpr ((length_selectNodes several).mpr enough))]

theorem lookup_start {names : List String} (nodup : names.Nodup) (slots : Int) (name : String) :
    (s.start env key job names slots port).nodeMgr.lookup name =
      (s.nodeMgr.lookup name).map fun n => if name ∈ names then n.assignJob key slots else n :=
  lookup_assignOn nodup name

/-- A set that is complete is placed, as the code checks every node of it but the anchor. -/
theorem placed_runJobMulti_iff (several : 1 < count) (known : s.nodeMgr.lookup first = some n) :
    WhollyPlaced s (s.runJobMulti env key job first port count ppn) key count ppn ↔
      s.Completable env first count ppn ∧ s.HasRoomFor ppn first := by
  have nodup := selectNodes_nodup s env first count ppn
  by_cases enough : s.Completable env first count ppn
  · rw [runJobMulti_enough several enough, and_iff_right enough]
    constructor
    · rintro ⟨names, -, -, room, nodes, -⟩
      have chosen : first ∈ s.selectNodes env first count ppn := by simp [selectNodes_eq]
      have changed := nodes first
      rw [lookup_start nodup, known, Option.map_some, if_pos chosen, Option.map_some] at changed
      by_cases member : first ∈ names
      · exact room first member
      · rw [if_neg member] at changed
        exact absurd (Option.some.inj changed) (assignJob_ne n key ppn)
    · intro anchor
      refine ⟨s.selectNodes env first count ppn, nodup, length_selectNodes_eq several enough, ?_,
        lookup_start nodup ppn, ?_⟩
      · intro name member
        rw [selectNodes_eq] at member
        rcases List.mem_cons.mp member with rfl | taken
        · exact anchor
        · exact (mem_spares.mp (List.mem_of_mem_take taken)).2
      · exact ⟨_, by rw [job_start, Function.update_self], rfl, rfl⟩
  · rw [runJobMulti_few several enough]
    refine iff_of_false ?_ fun both => enough both.1
    rintro ⟨names, -, length, room, nodes, -⟩
    obtain ⟨name, rest, rfl⟩ := List.exists_cons_of_length_pos (l := names) (by omega)
    obtain ⟨m, found, -, -⟩ := room name List.mem_cons_self
    have same := nodes name
    rw [found, Option.map_some, if_pos List.mem_cons_self] at same
    exact assignJob_ne m key ppn (Option.some.inj same).symm

/-- `runJobMulti` places the whole job or nothing exactly if the set is complete with an anchor
that has room, or it is not and the job was queued. -/
theorem runJobMulti_iff (several : 1 < count) (known : s.nodeMgr.lookup first = some n) :
    (s.runJobMulti env key job first port count ppn = s ∧ job.state = .queued ∨
      WhollyPlaced s (s.runJobMulti env key job first port count ppn) key count ppn) ↔
      (¬ s.Completable env first count ppn ∧ job.state = .queued) ∨
        (s.Completable env first count ppn ∧ s.HasRoomFor ppn first) := by
  rw [placed_runJobMulti_iff several known]
  refine or_congr_left (and_congr_left fun _ => ?_)
  constructor
  · intro same enough
    rw [runJobMulti_enough several enough] at same
    have nodes : s.nodeMgr.lookup first = _ := (congrArg (·.nodeMgr.lookup first) same).symm.trans
      (lookup_start (selectNodes_nodup s env first count ppn) ppn first)
    rw [known, Option.map_some, if_pos (by simp [selectNodes_eq])] at nodes
    exact assignJob_ne n key ppn (Option.some.inj nodes).symm
  · exact runJobMulti_few several

/-- The tests of `handleRunJob` that come before the choice of nodes. -/
def Cleared (s : Server) (env : Env) (job : Job) : Prop :=
  (s.haEnabled = true → s.haActive = true) ∧ (job.state = .queued ∨ job.state = .provisioning) ∧
    s.enforceRunLimits job = true ∧ s.checkDependencies env job = .met

section
variable (found : s.getJob env given = some (key, job))
include found

theorem runJob_cleared (cleared : s.Cleared env job) :
    s.handleRunJob env given dest = if dest = "" then s.accept else
      match s.nodeMgr.lookup (Text.before '/' dest) with
      | none => s.refuse pbseUnkNode
      | some n => (s.runOnNode env key job (Text.before '/' dest) n).accept := by
  obtain ⟨active, state, limits, dependencies⟩ := cleared
  have standby : ¬ (s.haEnabled && !s.haActive) = true := by simpa using active
  have ready : ¬ (job.state ≠ .queued ∧ job.state ≠ .provisioning) := by tauto
  rw [handleRunJob, if_neg standby, found]
  dsimp only
  rewrite [if_neg ready, if_neg (by simp [limits]), dependencies]
  rfl

theorem runJob_refused (other : ¬ s.Cleared env job) :
    (s.handleRunJob env given dest).reply ≠ .ok := by
  intro granted
  refine other ?_
  unfold handleRunJob at granted
  split at granted
  · cases granted
  case isFalse active =>
    rw [found] at granted
    dsimp only at granted
    split at granted
    · cases granted
    case isFalse ready =>
      split at granted
      · cases granted
      case isFalse limits =>
        refine ⟨by simpa using active, by tauto, by simpa using limits, ?_⟩
        cases dependencies : s.checkDependencies env job with
        | met => rfl
        | unmet | failed _ =>
          rw [dependencies] at granted
          cases granted

/-- A granted request for several nodes has placed the job exactly if it was not granted
without a node, without a complete set or on an anchor without room. -/
theorem runJob_placed_iff (several : 1 < job.nodeRequest.1) :
    ((s.handleRunJob env given dest).reply = .ok →
      WhollyPlaced s (s.handleRunJob env given dest).server key job.nodeRequest.1 job.nodeRequest.2) ↔
    (s.Cleared env job → dest ≠ "" ∧ (Text.before '/' dest ∈ s.nodeMgr →
      s.Completable env (Text.before '/' dest) job.nodeRequest.1 job.nodeRequest.2 ∧
        s.HasRoomFor job.nodeRequest.2 (Text.before '/' dest))) := by
  by_cases cleared : s.Cleared env job
  · rw [runJob_cleared found cleared, forall_prop_of_true cleared]
    by_cases named : dest = ""
    · rw [if_pos named]
      refine iff_of_false (fun placed => ?_) fun both => both.1 named
      obtain ⟨names, -, length, room, nodes, -⟩ := placed rfl
      obtain ⟨name, rest, rfl⟩ := List.exists_cons_of_length_pos (l := names) (by omega)
      obtain ⟨m, listed, -, -⟩ := room name List.mem_cons_self
      have same : s.nodeMgr.lookup name = _ := nodes name
      rw [listed, Option.map_some, if_pos List.mem_cons_self] at same
      exact assignJob_ne m key _ (Option.some.inj same).symm
    · rw [if_neg named]
      cases node : s.nodeMgr.lookup (Text.before '/' dest) with
      | none =>
        refine iff_of_true (fun granted => ?_) ⟨named, fun known => ?_⟩
        · cases granted
        · exact absurd known (AList.lookup_eq_none.mp node)
      | some n =>
        have request : s.runOnNode env key job (Text.before '/' dest) n = s.runJobMulti env key job
            (Text.before '/' dest) n.momPort job.nodeRequest.1 job.nodeRequest.2 := by
          simp only [runOnNode, if_pos several]
        dsimp only
        rw [request]
        constructor
        · exact fun placed => ⟨named, fun _ =>
            (placed_runJobMulti_iff several node).mp (placed rfl)⟩
        · exact fun condition _ => (placed_runJobMulti_iff several node).mpr
            (condition.2 (Assoc.mem_of_lookup node))
  · exact iff_of_true (fun granted => absurd granted (runJob_refused found cleared))
      fun passed => absurd passed cleared

end

end OpenTorque.Pbs.Server

namespace OpenTorque.Sched
open Pbs

/-- All-or-nothing placement of a job of several nodes, in the scheduler and in the server. -/
theorem multi_node_placement_iff {F : Type} [GoFloat F] (queues : List QueueInfo) (j : JobInfo)
    (s : Server) (env : Env) (given key dest first : String) (job : Job) (n : Node)
    (count ppn port : Int) (found : s.getJob env given = some (key, job))
    (known : s.nodeMgr.lookup first = some n) (asked : 1 < j.nodes) (wanted : 1 < count)
    (several : 1 < job.nodeRequest.1) :
    ((∀ (cfg : Config) (nodes : List (NodeInfo F)) (node : NodeInfo F),
      findNodeForJob cfg { queues, nodes } j = some node → Anchored queues j nodes node) ↔
      j.perNode ≤ j.demand ∨ ∀ n : NodeInfo F, admissible queues j n = false) ∧
    ((s.runJobMulti env key job first port count ppn = s ∧ job.state = .queued ∨
      s.WhollyPlaced (s.runJobMulti env key job first port count ppn) key count ppn) ↔
      (¬ s.Completable env first count ppn ∧ job.state = .queued) ∨
        (s.Completable env first count ppn ∧ s.HasRoomFor ppn first)) ∧
    (((s.handleRunJob env given dest).reply = .ok →
      s.WhollyPlaced (s.handleRunJob env given dest).server key job.nodeRequest.1 job.nodeRequest.2) ↔
      (s.Cleared env job → dest ≠ "" ∧ (Text.before '/' dest ∈ s.nodeMgr →
        s.Completable env (Text.before '/' dest) job.nodeRequest.1 job.nodeRequest.2 ∧
          s.HasRoomFor job.nodeRequest.2 (Text.before '/' dest)))) :=
  ⟨anchored_iff asked, Server.runJobMulti_iff wanted known, Server.runJob_placed_iff found several⟩

/-- Three free nodes and a queued job that asks for `count` of them. -/
def severalState (count : String) : Server := fromEmpty (mixedRun (gpuNodes count))

/-- The job asks for four nodes where there are three: the request to run it is granted and
the job stays where it was. -/
theorem too_few_nodes_granted :
    ((severalState "4").handleRunJob { now := 2 } "0.server" "n1/0").reply = .ok ∧
    ¬ (severalState "4").WhollyPlaced
      ((severalState "4").handleRunJob { now := 2 } "0.server" "n1/0").server "0.server" 4 1 := by
  refine ⟨by decide +kernel, ?_⟩
  rintro ⟨-, -, -, -, -, job, found, running, -⟩
  have waiting : (((severalState "4").handleRunJob { now := 2 } "0.server" "n1/0").server.job
      "0.server").any (·.state = .queued) = true := by decide +kernel
  simp [found, running] at waiting

/-- Two nodes of the three are free for a job of two. -/
theorem two_nodes_placed : ∃ job n, (severalState "2").getJob { now := 2 } "0.server" =
      some ("0.server", job) ∧ 1 < job.nodeRequest.1 ∧
    (severalState "2").nodeMgr.lookup "n1" = some n ∧
    (((severalState "2").handleRunJob { now := 2 } "0.server" "n1/0").reply = .ok →
      (severalState "2").WhollyPlaced
        ((severalState "2").handleRunJob { now := 2 } "0.server" "n1/0").server "0.server"
        job.nodeRequest.1 job.nodeRequest.2) := by
  have stored : ((severalState "2").getJob { now := 2 } "0.server").any
      (fun found => found.1 = "0.server" ∧ found.2.nodeRequest = (2, 1)) = true := by
    decide +kernel
  have listed : ((severalState "2").nodeMgr.lookup "n1").any
      (fun n => n.isFree ∧ 1 ≤ n.availableSlots) = true := by decide +kernel
  simp only [Option.any_eq_true, decide_eq_true_eq] at stored listed
  obtain ⟨⟨_, job⟩, found, rfl, request⟩ := stored
  obtain ⟨n, known, free, slots⟩ := listed
  have several : 1 < job.nodeRequest.1 := by rw [request]; decide
  have named : Text.before '/' "n1/0" = "n1" := by decide
  refine ⟨job, n, found, several, known, ?_⟩
  refine (multi_node_placement_iff (F := Unit) [] { id := "0.server", nodes := 2 }
    (severalState "2") { now := 2 }
    "0.server" "0.server" "n1/0" "n1" job n 2 1 15002 found known (by decide) (by decide)
    several).2.2.mpr fun _ => ⟨by decide, fun _ => ?_⟩
  rw [named, request]
  exact ⟨by unfold Server.Completable; decide +kernel, n, known, free, slots⟩

end OpenTorque.Sched
