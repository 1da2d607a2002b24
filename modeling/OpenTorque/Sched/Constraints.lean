import OpenTorque.Sched.Placement
import OpenTorque.Server.Recovery

/-! Whether every node of a started job meets what the job and its queue ask of it. The
scheduler checks the node it names; the server adds the other nodes of a multi-node job
by itself. -/
namespace OpenTorque.Pbs

/-- The same environment with another order for the loop over the nodes. -/
@[simps now hostname]
def Env.visiting (env : Env) (order : RangeOrder) : Env :=
  { env with order := Function.update env.order .nodes order }

namespace Server
variable {s : Server} {env : Env} {given dest key : String} {job : Job} {hosts names : List String}

/-- The step from `s` to `t` starts the job on those hosts. -/
structure Starts (s t : Server) (id : String) (hosts : List String) : Prop where
  idle : ∃ j, s.job id = some j ∧ j.state ≠ .running
  running : ∃ k, t.job id = some k ∧ k.state = .running ∧ Job.hostNames k.execHost = hosts

theorem Starts.irrefl : ¬ Starts s s key hosts := by
  rintro ⟨⟨j, found, idle⟩, k, same, running, -⟩
  exact idle (Option.some.inj (found.symm.trans same) ▸ running)

theorem Starts.of_any {t : Server} (idle : (s.job key).any (·.state ≠ .running) = true)
    (running : (t.job key).any (·.state = .running) = true) : ∃ hosts, Starts s t key hosts := by
  simp only [Option.any_eq_true, decide_eq_true_eq] at idle running
  obtain ⟨k, after, state⟩ := running
  exact ⟨_, idle, k, after, state, rfl⟩

/-- The names that the entry of one node in an `exec_host` is read as. -/
def spelled (name : String) : List String := Job.hostNames (name ++ "/0")

theorem hostNames_spelled (some : names ≠ []) :
    Job.hostNames (execHostOf names) = names.flatMap spelled := by
  have parts : Text.split '+' (execHostOf names) =
      (names.map (· ++ "/0")).flatMap (Text.split '+') :=
    Text.split_join_flatMap rfl (by simpa using some)
  rw [Job.hostNames, parts, List.map_flatMap, List.flatMap_map]
  rfl

theorem spelled_clean {name : String} (clean : CleanName name) : spelled name = [name] := by
  have whole : Job.hostNames (execHostOf [name]) = [name] :=
    hostNames_execHostOf (by simpa using clean) (by simp)
  rwa [hostNames_spelled (by simp), List.flatMap_singleton] at whole

/-- A node that `runJobMulti` may add to a job whose anchor is `first`. -/
def Spare (s : Server) (first : String) (ppn : Int) (name : String) : Prop :=
  name ≠ first ∧ ∃ n, s.nodeMgr.lookup name = some n ∧ n.isFree = true ∧ ppn ≤ n.availableSlots

def spares (s : Server) (env : Env) (first : String) (ppn : Int) : List String :=
  (s.allNodes env).filter fun name => name ≠ first &&
    (s.nodeMgr.lookup name).any fun n => n.isFree && ppn ≤ n.availableSlots

theorem selectNodes_eq (s : Server) (env : Env) (first : String) (count ppn : Int) :
    s.selectNodes env first count ppn = first :: (s.spares env first ppn).take (count - 1).toNat :=
  rfl

theorem mem_spares {first name : String} {ppn : Int} :
    name ∈ s.spares env first ppn ↔ s.Spare first ppn name := by
  simp only [spares, Spare, allNodes, List.mem_filter, Assoc.mem_range, Bool.and_eq_true,
    decide_eq_true_eq, Option.any_eq_true]
  constructor
  · rintro ⟨-, other, n, found, free⟩
    exact ⟨other, n, found, free⟩
  · rintro ⟨other, n, found, free⟩
    exact ⟨Assoc.mem_of_lookup found, other, n, found, free⟩

theorem length_spares (s : Server) (env env' : Env) (first : String) (ppn : Int) :
    (s.spares env first ppn).length = (s.spares env' first ppn).length := by
  have visited : (s.allNodes env).Perm (s.allNodes env') :=
    ((env.order .nodes).perm _).trans ((env'.order .nodes).perm _).symm
  exact (visited.filter _).length_eq

theorem spares_first {first name : String} {ppn : Int} (spare : s.Spare first ppn name) :
    (s.spares (env.visiting (.first name)) first ppn).head? = some name := by
  have known : name ∈ s.nodeMgr.keys := by
    obtain ⟨-, n, found, -⟩ := spare
    exact AList.mem_keys.mp (Assoc.mem_of_lookup found)
  have kept : name ∈ s.spares env first ppn := mem_spares.mpr spare
  have visited : s.allNodes (env.visiting (.first name)) = name :: s.nodeMgr.keys.erase name := by
    simp [allNodes, Assoc.range, Env.visiting, RangeOrder.first, known]
  rw [spares, List.mem_filter] at kept
  rw [spares, visited, List.filter_cons, if_pos kept.2, List.head?_cons]

/-- A request that starts a job passes every check, and passes it in every order of the
loop over the nodes. -/
theorem runJob_of_starts (found : s.getJob env given = some (key, job))
    (starts : Starts s (s.handleRunJob env given dest).server key hosts) :
    ∃ n, s.nodeMgr.lookup (Text.before '/' dest) = some n ∧ ∀ order,
      (s.handleRunJob (env.visiting order) given dest).server =
        s.runOnNode (env.visiting order) key job (Text.before '/' dest) n := by
  have present : s.job key = some job := job_of_getJob found
  have same : ∀ order, s.getJob (env.visiting order) given = some (key, job) := fun _ => found
  have verdict : ∀ order, s.checkDependencies (env.visiting order) job = s.checkDependencies env job :=
    fun _ => rfl
  simp only [handleRunJob, found] at starts
  simp only [handleRunJob, same, verdict]
  split at starts
  · exact absurd starts Starts.irrefl
  rename_i active
  split at starts
  · exact absurd starts Starts.irrefl
  rename_i ready
  split at starts
  · exact absurd starts Starts.irrefl
  rename_i limits
  simp only [if_neg active, if_neg ready, if_neg limits]
  cases dependencies : s.checkDependencies env job with
  | unmet =>
    rw [dependencies] at starts
    exact absurd starts Starts.irrefl
  | failed comment =>
    rw [dependencies] at starts
    obtain ⟨⟨j, listed, idle⟩, k, after, running, -⟩ := starts
    obtain rfl : job = j := Option.some.inj (present.symm.trans listed)
    have written : (s.putJob key (job.setComment comment)).job key = some k := after
    rw [job_putJob, Function.update_self] at written
    obtain rfl := Option.some.inj written
    exact absurd running idle
  | met =>
    rw [dependencies] at starts
    simp only at starts ⊢
    split at starts
    · exact absurd starts Starts.irrefl
    rename_i named
    simp only [if_neg named]
    cases node : s.nodeMgr.lookup (Text.before '/' dest) with
    | none =>
      rw [node] at starts
      exact absurd starts Starts.irrefl
    | some n => exact ⟨n, rfl, fun _ => rfl⟩

theorem starts_start (present : s.job key = some job) (idle : job.state ≠ .running)
    (named : names ≠ []) : Starts s (s.start env key j names slots port) key hosts ↔
      hosts = names.flatMap spelled := by
  have after : (s.start env key j names slots port).job key =
      some ((j.setExec (execHostOf names) port).setState env.now .running) := by
    have written : (s.start env key j names slots port).job = Function.update s.job key
        (some ((j.setExec (execHostOf names) port).setState env.now .running)) := by
      show ((s.assignOn names key slots).putJob key _).job = _
      rw [job_putJob, job_assignOn]
    rw [written, Function.update_self]
  rw [← hostNames_spelled named]
  constructor
  · rintro ⟨-, k, found, -, rfl⟩
    obtain rfl := Option.some.inj (after.symm.trans found)
    rfl
  · rintro rfl
    exact ⟨⟨job, present, idle⟩, _, after, rfl, rfl⟩

/-- The nodes a request for one node or for several puts the job on. -/
def taken (s : Server) (env : Env) (job : Job) (first : String) : List String :=
  if 1 < job.nodeRequest.1 then s.selectNodes env first job.nodeRequest.1 job.nodeRequest.2
  else [first]

def Enough (s : Server) (env : Env) (job : Job) (first : String) : Prop :=
  1 < job.nodeRequest.1 → job.nodeRequest.1 ≤ (s.taken env job first).length

theorem starts_runOnNode {first : String} {n : Node} (present : s.job key = some job)
    (idle : job.state ≠ .running) : Starts s (s.runOnNode env key job first n) key hosts ↔
      s.Enough env job first ∧ hosts = (s.taken env job first).flatMap spelled := by
  by_cases several : 1 < job.nodeRequest.1
  · have request : s.runOnNode env key job first n =
        s.runJobMulti env key job first n.momPort job.nodeRequest.1 job.nodeRequest.2 := by
      simp only [runOnNode, if_pos several]
    rw [request, runJobMulti, Enough, taken, if_pos several]
    split
    case isTrue few =>
      refine iff_of_false Starts.irrefl ?_
      rintro ⟨enough, -⟩
      exact absurd (enough several) (not_le.mpr few)
    case isFalse enough =>
      have named : s.selectNodes env first job.nodeRequest.1 job.nodeRequest.2 ≠ [] :=
        List.cons_ne_nil _ _
      rw [starts_start present idle named]
      exact (and_iff_right fun _ => not_lt.mp enough).symm
  · have request : s.runOnNode env key job first n =
        s.start env key job [first] job.requestedCPUs n.momPort := by
      simp only [runOnNode, if_neg several]
    rw [request, starts_start present idle (List.cons_ne_nil _ _), Enough, taken, if_neg several]
    exact (and_iff_right fun more => absurd more several).symm

theorem enough_visiting {first : String} (env' : Env) (enough : s.Enough env job first) :
    s.Enough env' job first := by
  intro several
  have before := enough several
  rw [taken, if_pos several, selectNodes_eq, List.length_cons, List.length_take] at before ⊢
  rwa [length_spares s env' env]

/-- A node is in the set for some order of the loop. -/
theorem exists_order_taken {first name : String} (several : 1 < job.nodeRequest.1)
    (spare : s.Spare first job.nodeRequest.2 name) :
    ∃ order, name ∈ s.taken (env.visiting order) job first := by
  refine ⟨.first name, ?_⟩
  have ahead : (s.spares (env.visiting (.first name)) first job.nodeRequest.2).head? = some name :=
    spares_first spare
  obtain ⟨rest, listed⟩ := List.head?_eq_some_iff.mp ahead
  obtain ⟨count, more⟩ : ∃ count, (job.nodeRequest.1 - 1).toNat = count + 1 :=
    ⟨(job.nodeRequest.1 - 1).toNat - 1, by omega⟩
  rw [taken, if_pos several, selectNodes_eq, listed, more, List.take_succ_cons]
  simp

theorem mem_taken {first name : String} (listed : name ∈ s.taken env job first) :
    name = first ∨ 1 < job.nodeRequest.1 ∧ s.Spare first job.nodeRequest.2 name := by
  rw [taken] at listed
  split at listed
  case isTrue several =>
    rw [selectNodes_eq] at listed
    rcases List.mem_cons.mp listed with same | taken
    · exact .inl same
    · exact .inr ⟨several, mem_spares.mp (List.mem_of_mem_take taken)⟩
  case isFalse => exact .inl (List.mem_singleton.mp listed)

theorem first_mem_taken (first : String) : first ∈ s.taken env job first := by
  rw [taken]
  split <;> simp [selectNodes_eq]

end Server

end OpenTorque.Pbs

namespace OpenTorque.Sched
open Pbs
variable {F : Type}

/-- What the job and its queue ask of a node: the host or the group it is pinned to, its
features, the queue's host list and access policy, and free generic resources. -/
def meets (queues : List QueueInfo) (j : JobInfo) (n : NodeInfo F) : Bool :=
  (j.host = "" || Text.equalFold n.name j.host) &&
    (j.features = [] || nodeHasAllFeatures n j.features) &&
    (j.hostGroup = "" || nodeHasGroup n j.hostGroup) &&
    queueNodeOK (queueForJob queues j.queue) n && nodeHasGRes n j.gres

theorem admissible_eq (queues : List QueueInfo) (j : JobInfo) (n : NodeInfo F) :
    admissible queues j n = (nodeSchedulable n && meets queues j n) := by
  simp only [admissible, meets, Bool.and_assoc]

/-- The snapshot shows no node of that name that fails a constraint. -/
def NameMeets (info : ServerInfo F) (j : JobInfo) (name : String) : Prop :=
  ∀ node ∈ info.nodes, node.name = name → meets info.queues j node = true

/-- Every name that the entry of the node in an `exec_host` is read as meets them. -/
def Suits (info : ServerInfo F) (j : JobInfo) (name : String) : Prop :=
  ∀ host ∈ Server.spelled name, NameMeets info j host

/-- What `handleRunJob` is asked once the scheduler has decided. -/
def order (j : JobInfo) (node : NodeInfo F) : Request := .runJob j.id (node.name ++ "/0")

section Execution
variable {s : Server} {env : Env} {info : ServerInfo F} {j : JobInfo} {node : NodeInfo F}
  {key : String} {job : Job}

/-- All hosts of a started job meet the constraints in every order of the server's loop
exactly if the anchor does and, for a job of several nodes, every spare node does. -/
theorem hosts_meet_iff (found : s.getJob env j.id = some (key, job))
    (executed : ∃ hosts, Server.Starts s (s.handle env (order j node)).server key hosts) :
    (∀ o hosts, Server.Starts s (s.handle (env.visiting o) (order j node)).server key hosts →
      ∀ host ∈ hosts, NameMeets info j host) ↔
    Suits info j (Text.before '/' (node.name ++ "/0")) ∧
      (1 < job.nodeRequest.1 → ∀ name,
        s.Spare (Text.before '/' (node.name ++ "/0")) job.nodeRequest.2 name →
        Suits info j name) := by
  obtain ⟨hosts₀, starts⟩ := executed
  have present := Server.job_of_getJob found
  have idle : job.state ≠ .running := by
    obtain ⟨⟨k, same, idle⟩, -⟩ := starts
    exact Option.some.inj (present.symm.trans same) ▸ idle
  obtain ⟨n, -, outcome⟩ := Server.runJob_of_starts found starts
  set first := Text.before '/' (node.name ++ "/0")
  have placed : ∀ o hosts, Server.Starts s (s.handle (env.visiting o) (order j node)).server key hosts ↔
      s.Enough (env.visiting o) job first ∧
        hosts = (s.taken (env.visiting o) job first).flatMap Server.spelled := by
    intro o hosts
    rw [← Server.starts_runOnNode present idle, ← outcome o]
    rfl
  have enough : ∀ o, s.Enough (env.visiting o) job first := by
    have unchanged : env.visiting (env.order .nodes) = env := by
      simp [Env.visiting]
    have now := ((placed (env.order .nodes) hosts₀).mp (by rw [unchanged]; exact starts)).1
    exact fun o => Server.enough_visiting _ now
  constructor
  · intro all
    have suits : ∀ o, ∀ name ∈ s.taken (env.visiting o) job first, Suits info j name :=
      fun o name listed host read => all o _ ((placed o _).mpr ⟨enough o, rfl⟩) host
        (List.mem_flatMap.mpr ⟨name, listed, read⟩)
    refine ⟨suits .listed first (Server.first_mem_taken first), fun several name spare => ?_⟩
    obtain ⟨o, listed⟩ := Server.exists_order_taken several spare
    exact suits o name listed
  · rintro ⟨anchor, others⟩ o hosts running host member
    obtain ⟨-, rfl⟩ := (placed o hosts).mp running
    obtain ⟨name, listed, read⟩ := List.mem_flatMap.mp member
    rcases Server.mem_taken listed with rfl | ⟨several, spare⟩
    · exact anchor host read
    · exact others several name spare host read

variable [GoFloat F] {cfg : Config}

/-- The node the scheduler chose meets the constraints, if its name can be read back. -/
theorem suits_chosen (distinct : (info.nodes.map (·.name)).Nodup)
    (chosen : findNodeForJob cfg info j = some node) (clean : CleanName node.name) :
    Suits info j (Text.before '/' (node.name ++ "/0")) := by
  have shape : (node.name ++ "/0").toList = node.name.toList ++ '/' :: ['0'] := by simp
  have itself : Text.before '/' (node.name ++ "/0") = node.name := Text.before_append clean.2 shape
  obtain ⟨listed, fits, -⟩ := mem_candidates chosen
  rw [admissible_eq, Bool.and_eq_true] at fits
  intro host read other member same
  rw [itself, Server.spelled_clean clean, List.mem_singleton] at read
  obtain rfl : other = node := List.inj_on_of_nodup_map distinct member listed (same.trans read)
  exact fits.2

end Execution

/-- Once a decision of the scheduler has been executed, every host of the job meets the
constraints of the job and its queue, whatever order the server visits its nodes in,
exactly if the job is for one node or each spare node of the server meets them too. -/
theorem placement_holds_iff [GoFloat F] (cfg : Config) (info : ServerInfo F) (j : JobInfo)
    (node : NodeInfo F) (s : Server) (env : Env) (key : String) (job : Job)
    (distinct : (info.nodes.map (·.name)).Nodup)
    (chosen : findNodeForJob cfg info j = some node)
    (found : s.getJob env j.id = some (key, job))
    (executed : ∃ hosts, Server.Starts s (s.handle env (order j node)).server key hosts) :
    (∀ o hosts, Server.Starts s (s.handle (env.visiting o) (order j node)).server key hosts →
      ∀ host ∈ hosts, NameMeets info j host) ↔
    (CleanName node.name ∨ Suits info j (Text.before '/' (node.name ++ "/0"))) ∧
      (job.nodeRequest.1 ≤ 1 ∨ ∀ name,
        s.Spare (Text.before '/' (node.name ++ "/0")) job.nodeRequest.2 name →
        Suits info j name) := by
  rw [hosts_meet_iff found executed]
  refine and_congr ⟨.inr, ?_⟩ ?_
  · rintro (clean | suits)
    · exact suits_chosen distinct chosen clean
    · exact suits
  · rw [← not_lt, imp_iff_not_or]

section Runs

def propertied (name : String) (properties : String) : Request :=
  .manager (.createNode name [{ name := "np", value := "4" },
    { name := "properties", value := properties }])

/-- Three free nodes, two of them with a GPU, and a queued job. -/
def mixedRun (attrs : List Attr) : List (Env × Step) :=
  atOnce [.manager (.createQueue "batch" []), propertied "n1" "gpu", propertied "n2" "gpu",
    propertied "n3" "cpu"] ++
  [reports "n1" ["state=free"], reports "n2" ["state=free"], reports "n3" ["state=free"]] ++
  atOnce [.queueJob "alice@host" "batch" attrs, .commit "0.server"]

def gpuNodes (count : String) : List Attr :=
  [{ name := "Resource_List", resc := "nodes", hasResc := true, value := count },
    { name := "Resource_List", resc := "feature", hasResc := true, value := "gpu" }]

def hostsAfterCycle (s : Server) (id : String) : Option (List String) :=
  (runCycle {} false (.at 2) 9 (∅ : Assoc Unit) s).map fun o => o.server.hostsOf id

/-- A job for two nodes with a GPU is started on a node without one. -/
theorem feature_missing_on_second_node :
    hostsAfterCycle (fromEmpty (mixedRun (gpuNodes "2"))) "0.server" = some ["n2", "n3"] ∧
      ((fromEmpty (mixedRun (gpuNodes "2"))).nodeMgr.lookup "n3").map (·.properties) = some ["cpu"] := by
  decide +kernel

/-- The node without a GPU is busy, so the other two are left for a job of two. -/
def pairState : Server := fromEmpty (mixedRun (gpuNodes "2") ++ [reports "n3" ["state=busy"]])

def pairJob : JobInfo := { id := "0.server", queue := "batch", nodes := 2, features := ["gpu"] }

def pairInfo : ServerInfo Unit := { queues := [], nodes := nodesOf pairState { now := 2 } }

/-- The job is started on the nodes with a GPU in every order of the loop. -/
theorem placement_holds_of_pair : ∃ node, findNodeForJob {} pairInfo pairJob = some node ∧
    (∃ hosts, Server.Starts pairState (pairState.handle { now := 2 } (order pairJob node)).server
      "0.server" hosts) ∧
    ∀ o hosts, Server.Starts pairState
      (pairState.handle (Env.visiting { now := 2 } o) (order pairJob node)).server "0.server"
      hosts → ∀ host ∈ hosts, NameMeets pairInfo pairJob host := by
  have picked : (findNodeForJob {} pairInfo pairJob).any (·.name = "n2") = true := by
    decide +kernel
  have stored : (pairState.getJob { now := 2 } pairJob.id).any
      (fun found => found.1 = "0.server" ∧ found.2.nodeRequest = (2, 1)) = true := by
    decide +kernel
  simp only [Option.any_eq_true, decide_eq_true_eq] at picked stored
  obtain ⟨node, chosen, named⟩ := picked
  obtain ⟨⟨_, job⟩, found, rfl, request⟩ := stored
  have anchor : Text.before '/' (node.name ++ "/0") = "n2" := by
    rw [named]
    decide
  have executed : ∃ hosts, Server.Starts pairState
      (pairState.handle { now := 2 } (order pairJob node)).server "0.server" hosts := by
    rw [order, named]
    exact Server.Starts.of_any (by decide +kernel) (by decide +kernel)
  have spares : ∀ name ∈ pairState.spares { now := 2 } "n2" 1, ∀ host ∈ Server.spelled name,
      ∀ record ∈ pairInfo.nodes, record.name = host → meets pairInfo.queues pairJob record = true := by
    decide +kernel
  refine ⟨node, chosen, executed, ?_⟩
  refine (placement_holds_iff {} pairInfo pairJob node pairState { now := 2 } "0.server" job
    (nodup_nodesOf _ _) chosen found executed).mpr ⟨.inl (named ▸ by decide), .inr ?_⟩
  rw [anchor, request]
  exact fun name spare => spares name (Server.mem_spares.mpr spare)

end Runs

end OpenTorque.Sched
