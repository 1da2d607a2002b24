import OpenTorque.Cec.Ownership
import OpenTorque.Sched.World
import OpenTorque.Server.Occupancy

/-! The server, the scheduler and the controller together. The controller learns which
nodes are idle from the result of a cycle, keeps a timer for each and, when a tick finds
the time over, asks the server to drain and to delete the node. Between the snapshot of
the cycle, the report, the tick and each of its calls the server goes on; nothing looks at
the node again. -/
namespace OpenTorque.Cec
open Transition

/-- What the node controller asks the server to do for a call. -/
def Call.step : Call → Option Pbs.Step
  | .drainNode name => some (.request (.manager (.setNode name
      [{ name := "state", value := "offline", op := 1 }])))
  | .deregisterNode name => some (.request (.manager (.deleteNode name)))
  | _ => none

def Call.leaving : Call → List String
  | .deregisterNode name => [name]
  | _ => []

/-- Entry points that only `runOneCycle` calls, after a cycle. -/
def Action.reported : Action → Bool
  | .registerNodesUp .. | .registerNodesIdle .. | .syncQueuedJobs .. => true
  | _ => false

inductive Report where
  | up | idle | jobs
  deriving DecidableEq, Repr

def Report.action (queue : String) (result : Sched.CycleResult) : Report → Action
  | .up => .registerNodesUp queue result.freeNodes
  | .idle => .registerNodesIdle queue result.idleNodes
  | .jobs => .syncQueuedJobs queue result.aliveJobs

structure Cloud (F : Type) where
  world : Sched.World F
  controller : Controller := new
  /-- Calls that the controller has still to make; it holds its mutex until the last. -/
  calls : List Call := []
  /-- The result of the last cycle. -/
  result : Sched.CycleResult := {}

inductive CloudEvent (F : Type) where
  | sched (e : Sched.Event F)
  | server (env : Pbs.Env) (step : Pbs.Step)
  | controller (env : Env) (a : Action)
  | report (env : Env) (queue : String) (part : Report)
  | call (env : Pbs.Env)

section Cloud
variable {F : Type} [Sched.GoFloat F]

namespace Cloud

def resultAfter (w : Cloud F) : Sched.Event F → Sched.CycleResult
  | .turn fuel =>
    match w.world.session with
    | none => w.result
    | some c =>
      match c.turn fuel w.world.server with
      | some (.stop p) => Sched.result c.view c.queues p
      | _ => w.result
  | _ => w.result

/-- The steps that an event makes the server take. -/
def serverSteps (w : Cloud F) : CloudEvent F → List (Pbs.Env × Pbs.Step)
  | .sched e => w.world.serverSteps e
  | .server env step => [(env, step)]
  | .call env => (w.calls.head?.bind Call.step).toList.map (env, ·)
  | .controller .. | .report .. => []

/-- The controller takes a step once the calls of the last one are made. The answers to
the calls are part of the environment. -/
def control (w : Cloud F) (env : Env) (a : Action) : Cloud F :=
  if w.calls = [] then
    { w with controller := (w.controller.step env a).1, calls := (w.controller.step env a).2 }
  else w

def onServer (w : Cloud F) (steps : List (Pbs.Env × Pbs.Step)) : Cloud F :=
  { w with world := { w.world with server := steps.foldl Pbs.Server.next w.world.server } }

def next (w : Cloud F) : CloudEvent F → Cloud F
  | .sched e => { w with world := w.world.step e, result := w.resultAfter e }
  | .server env step => w.onServer [(env, step)]
  | .controller env a => if a.reported then w else w.control env a
  | .report env queue part => w.control env (part.action queue w.result)
  | .call env => { w.onServer (w.serverSteps (.call env)) with calls := w.calls.tail }

/-- The event deletes the node at the request of the controller. -/
def Deregisters (w : Cloud F) (event : CloudEvent F) (name : String) : Prop :=
  ∃ env, event = .call env ∧ w.calls.head? = some (.deregisterNode name)

end Cloud

def Controller.timers (c : Controller) : List String :=
  c.pools.entries.flatMap fun entry => entry.2.idleSince.keys

theorem Controller.mem_timers {c : Controller} :
    name ∈ c.timers ↔ ∃ q p, c.pools.lookup q = some p ∧ name ∈ p.idleSince := by
  simp only [timers, List.mem_flatMap, AList.mem_keys]
  constructor
  · rintro ⟨⟨q, p⟩, listed, idle⟩
    exact ⟨q, p, AList.mem_lookup_iff.mpr listed, idle⟩
  · rintro ⟨q, p, found, idle⟩
    exact ⟨⟨q, p⟩, AList.mem_lookup_iff.mp found, idle⟩

/-- A timer starts only for an owned node that is reported idle. -/
theorem Controller.timers_step {c : Controller} (running : name ∈ (c.step env a).1.timers) :
    name ∈ c.timers ∨ ∃ q nodes p, a = .registerNodesIdle q nodes ∧ c.pools.lookup q = some p ∧
      name ∈ p.owned ∧ name ∈ nodes := by
  obtain ⟨q, after, found, idle⟩ := mem_timers.mp running
  -- the owned nodes do not change while a report is read
  have kept := step_invariant (I := fun s : Fleet =>
      (∀ id ∈ s.idle, id ∈ c.timers ∨ ∃ q nodes p, a = .registerNodesIdle q nodes ∧
        c.pools.lookup q = some p ∧ id ∈ p.owned ∧ id ∈ nodes) ∧
      ∀ nodes p, a = .registerNodesIdle q nodes → c.pools.lookup q = some p → ∀ id ∈ s.owned, id ∈ p.owned)
    ?_ ?_ ?_ after found
  · exact kept.1 name (Assoc.mem_members.mpr idle)
  · intro ev rest _ _ absent
    refine ⟨fun id member => ?_, fun nodes p _ present => ?_⟩
    · simp [Pool.fleet, Pool.create] at member
    · rw [absent] at present
      cases present
  · rintro s m ⟨timed, owned⟩ caused
    cases caused with
    | configure | resume | issue | down | cancel | expire => exact ⟨timed, owned⟩
    | up => exact ⟨timed, fun nodes p same => by cases same⟩
    | @idle nodes _ id known reported =>
      refine ⟨fun x member => ?_, owned⟩
      rcases Finset.mem_insert.mp member with rfl | before
      · cases present : c.pools.lookup q with
        | none =>
          rw [Controller.step, registerNodesIdle, onPool_lookup, present] at found
          cases found
        | some p => exact .inr ⟨q, nodes, p, rfl, present, owned nodes p rfl present x known, reported⟩
      · exact timed x before
    | busy => exact ⟨fun x member => timed x (Finset.mem_of_mem_erase member), owned⟩
    | release | suspend =>
      exact ⟨fun x member => timed x (Finset.mem_of_mem_erase member), fun nodes p same => by cases same⟩
  · intro p present
    refine ⟨fun id member => .inl (mem_timers.mpr ⟨q, p, present, Assoc.mem_members.mp member⟩),
      fun nodes p' _ again id member => ?_⟩
    cases present.symm.trans again
    exact Assoc.mem_members.mp member

theorem reclaimCandidate_leaving (env : Env) (nodes : Bool) (p : Pool) (name : String) :
    ∀ call ∈ (reclaimCandidate env nodes p name).2, ∀ id ∈ call.leaving, id = name := by
  rw [reclaimCandidate_eq]
  unfold reclaimNodeLocked
  dsimp only
  split_ifs <;> simp [Call.leaving]

theorem destroy_all_leaving (env : Env) (site : ReclaimSite) (p : Pool) (stale : List String) :
    ∀ call ∈ (run (destroyProvisioning env site) p stale).2, call.leaving = [] :=
  run_emits fun _ _ _ => by simp [destroyProvisioning_calls, Call.leaving]

theorem reclaimIdleNodes_leaving (env : Env) (nodes : Bool) (qname : String) (p : Pool) :
    ∀ call ∈ (reclaimIdleNodes env nodes qname p).2, ∀ id ∈ call.leaving, id ∈ p.idleSince := by
  unfold reclaimIdleNodes
  split
  · simp
  · refine run_emits fun _ other listed call turn id leaves => ?_
    obtain rfl := reclaimCandidate_leaving env nodes _ other call turn id leaves
    exact (Assoc.mem_range _ _).mp (List.mem_filter.mp listed).1

/-- The controller deregisters only nodes for which a timer ran. -/
theorem Controller.calls_step {c : Controller} (called : call ∈ (c.step env a).2)
    (leaves : name ∈ call.leaving) : name ∈ c.timers := by
  cases a with
  | setNodeController | send => cases called
  | registerNodesUp queue nodes | registerNodesIdle queue nodes =>
    simp only [Controller.step, registerNodesUp, registerNodesIdle, onPool_calls] at called
    cases found : c.pools.lookup queue <;> simp [found] at called
  | receive =>
    obtain ⟨ref, rfl⟩ | ⟨request, answer, rfl⟩ := receive_calls env c call called <;> cases leaves
  | syncQueuedJobs queue jobIDs =>
    simp only [Controller.step, syncQueuedJobs, onPool_calls] at called
    cases found : c.pools.lookup queue with
    | none => simp [found] at called
    | some p =>
      simp only [found, Option.elim_some] at called
      simp [destroy_all_leaving env _ p _ call called] at leaves
  | reclaimIdle =>
    obtain ⟨q, p, found, turn⟩ := (reclaimIdle_calls env c).mp called
    refine mem_timers.mpr ⟨q, p, found, ?_⟩
    rcases List.mem_append.mp turn with swept | reclaimed
    · simp [destroy_all_leaving env _ p _ call swept] at leaves
    · have idle := reclaimIdleNodes_leaving env c.nodes q _ call reclaimed name leaves
      rwa [(sweep_keeps env q p).1] at idle

namespace Cloud
variable {w : Cloud F} {event : CloudEvent F} {name : String}

/-- The nodes that have an idle timer or are about to be deregistered. -/
def marked (w : Cloud F) : List String := w.controller.timers ++ w.calls.flatMap Call.leaving

/-- The evidence of the controller stays true: no `RunJob` starts a job on a marked node,
and the owned nodes that a report calls idle have no job when it is read. -/
def Vacant (w : Cloud F) (event : CloudEvent F) : Prop :=
  (∀ l ∈ w.serverSteps event, ∀ name ∈ w.world.server.runsOn l.1 l.2, name ∉ w.marked) ∧
    match event with
    | .report _ queue .idle => ∀ p ∈ w.controller.pools.lookup queue, ∀ name ∈ w.result.idleNodes,
        name ∈ p.owned → w.world.server.assigned name = []
    | _ => True

def Spared (w : Cloud F) : Prop := ∀ name ∈ w.marked, w.world.server.assigned name = []

theorem serverSteps_cases (w : Cloud F) (event : CloudEvent F) :
    w.serverSteps event = [] ∨ ∃ l, w.serverSteps event = [l] := by
  have few : ∀ {α : Type} (o : Option α), o.toList = [] ∨ ∃ x, o.toList = [x] := by
    rintro α (- | x)
    · exact .inl rfl
    · exact .inr ⟨x, rfl⟩
  cases event with
  | controller | report => exact .inl rfl
  | server env step => exact .inr ⟨_, rfl⟩
  | call env =>
    simp only [serverSteps]
    rcases few (w.calls.head?.bind Call.step) with none | ⟨step, one⟩
    · exact .inl (by simp [none])
    · exact .inr ⟨_, by rw [one]; rfl⟩
  | sched e =>
    simp only [serverSteps]
    cases e with
    | submit | complete => exact .inr ⟨_, rfl⟩
    | begin =>
      simp only [Sched.World.serverSteps]
      split
      · exact .inr ⟨_, rfl⟩
      · exact .inl rfl
    | turn fuel =>
      simp only [Sched.World.serverSteps]
      rcases few (w.world.session.bind (·.request fuel)) with none | ⟨asked, one⟩
      · exact .inl (by simp [none])
      · exact .inr ⟨_, by rw [one]; rfl⟩

omit [Sched.GoFloat F] in
theorem control_world (env : Env) (a : Action) : (w.control env a).world = w.world := by
  unfold control
  split <;> rfl

theorem next_server (w : Cloud F) (event : CloudEvent F) :
    (w.next event).world.server = (w.serverSteps event).foldl Pbs.Server.next w.world.server := by
  cases event with
  | sched e => exact w.world.step_server e
  | server | call => rfl
  | controller env a =>
    simp only [next]
    split
    · rfl
    · rw [control_world]; rfl
  | report env queue part => simp only [next, control_world]; rfl

theorem Spared.server (spared : w.Spared) (vacant : w.Vacant event) :
    ∀ name ∈ w.marked, (w.next event).world.server.assigned name = [] := by
  intro name marked
  rw [next_server]
  rcases w.serverSteps_cases event with none | ⟨l, one⟩
  · rw [none]
    exact spared name marked
  · have apart : name ∉ w.world.server.runsOn l.1 l.2 :=
      fun listed => vacant.1 l (by simp [one]) name listed marked
    have fewer := (w.world.server.step_effect l.1 l.2).assigned_subset apart
    rw [spared name marked] at fewer
    rw [one]
    exact List.subset_nil.mp fewer

omit [Sched.GoFloat F] in
theorem marked_control (marked : name ∈ (w.control env a).marked) : name ∈ w.marked ∨
    ∃ q nodes p, a = .registerNodesIdle q nodes ∧ w.controller.pools.lookup q = some p ∧
      name ∈ p.owned ∧ name ∈ nodes := by
  unfold control at marked
  split at marked
  · rcases List.mem_append.mp marked with running | called
    · exact (Controller.timers_step running).imp_left (List.mem_append_left _)
    · obtain ⟨call, member, leaves⟩ := List.mem_flatMap.mp called
      exact .inl (List.mem_append_left _ (Controller.calls_step member leaves))
  · exact .inl marked

/-- A node comes to be marked only by a report. -/
theorem marked_next (marked : name ∈ (w.next event).marked) : name ∈ w.marked ∨
    ∃ env queue p, event = .report env queue .idle ∧ w.controller.pools.lookup queue = some p ∧
      name ∈ p.owned ∧ name ∈ w.result.idleNodes := by
  cases event with
  | sched | server => exact .inl marked
  | call env =>
    rcases List.mem_append.mp marked with running | called
    · exact .inl (List.mem_append_left _ running)
    · obtain ⟨call, member, leaves⟩ := List.mem_flatMap.mp called
      exact .inl (List.mem_append_right _ (List.mem_flatMap.mpr ⟨call, List.mem_of_mem_tail member, leaves⟩))
  | controller env a =>
    simp only [next] at marked
    split at marked
    · exact .inl marked
    case isFalse own =>
      refine (marked_control marked).imp_right ?_
      rintro ⟨q, nodes, p, rfl, -⟩
      exact (own rfl).elim
  | report env queue part =>
    refine (marked_control marked).imp_right ?_
    rintro ⟨q, nodes, p, same, found, owned, idle⟩
    cases part with
    | up | jobs => cases same
    | idle =>
      cases same
      exact ⟨env, queue, p, rfl, found, owned, idle⟩

theorem Spared.next (spared : w.Spared) (vacant : w.Vacant event) : (w.next event).Spared := by
  intro name marked
  rcases marked_next marked with before | ⟨env, queue, p, rfl, found, owned, idle⟩
  · exact spared.server vacant name before
  · rw [next_server]
    exact vacant.2 p found name idle owned

omit [Sched.GoFloat F] in
theorem Spared.deregisters (spared : w.Spared) (deregisters : w.Deregisters event name) :
    w.world.server.assigned name = [] := by
  obtain ⟨env, -, first⟩ := deregisters
  refine spared name (List.mem_append_right _ (List.mem_flatMap.mpr ⟨_, List.mem_of_mem_head? first, ?_⟩))
  simp [Call.leaving]

/-- In every run in which the controller's evidence stays true, a node that it deregisters
lists no job at that moment. -/
theorem deregisters_only_vacant (s : Pbs.Server) (events : List (CloudEvent F))
    (vacant : Along next Vacant { world := { server := s } } events) :
    Along next (fun w event => ∀ name, w.Deregisters event name → w.world.server.assigned name = [])
      { world := { server := s } } events :=
  vacant.entails (I := Spared) (fun _ _ spared vacant => spared.next vacant)
    (fun _ _ spared _ _ => spared.deregisters) fun name marked => by cases marked

instance (w : Cloud F) (event : CloudEvent F) : Decidable (w.Vacant event) := by
  unfold Vacant
  split <;> infer_instance

end Cloud

end Cloud

namespace Cloud

theorem leaving_eq {call : Call} (leaves : name ∈ call.leaving) : call = .deregisterNode name := by
  cases call with
  | deregisterNode other => simpa [Call.leaving, eq_comm] using leaves
  | _ => cases leaves

/-- A queue and a node with the name of a VM. -/
def oneVM : Pbs.Server :=
  Pbs.fromEmpty (Pbs.atOnce [.manager (.createQueue "cloud" []),
    .manager (.createNode "vm-1" [{ name := "np", value := "4" }])] ++
    [Pbs.reports "vm-1" ["state=free"]])

def cycle (turns : Nat) : List (CloudEvent Unit) :=
  .sched (.begin {} false (.at 2) ∅) :: List.replicate turns (.sched (.turn 1))

/-- The VM is ordered, its node is free after a cycle, and the cycle reports it idle. -/
def reportedIdle : List (CloudEvent Unit) :=
  [.controller { now := 0 } .setNodeController,
    .controller { now := 0 } (.send { demand with idleTime := minute }),
    .controller { now := 0, ensure := fun _ => .ok [⟨"vm-1"⟩] } .receive, .call { now := 1 }] ++
  cycle 1 ++
  [.report { now := minute } "cloud" .up, .report { now := minute } "cloud" .idle]

/-- The next tick finds the idle time over and the controller makes its calls. -/
def reclaimed (calls : Nat) : List (CloudEvent Unit) :=
  .controller { now := 2 * minute } .reclaimIdle :: List.replicate calls (.call { now := 3 })

def runOf (events : List (CloudEvent Unit)) : Cloud Unit :=
  events.foldl next { world := { server := oneVM } }

theorem deregisters_only_vacant_idle :
    "vm-1" ∉ (runOf (reportedIdle ++ reclaimed 3)).world.server.nodeMgr ∧
      Along next (fun w event => ∀ name, w.Deregisters event name → w.world.server.assigned name = [])
        { world := { server := oneVM } } (reportedIdle ++ reclaimed 3) :=
  ⟨by decide +kernel, deregisters_only_vacant oneVM _ (by decide +kernel)⟩

/-- A job is submitted, and the next cycle starts it on the node; its report would stop the
timer, but the tick comes first. -/
def startedMeanwhile : List (CloudEvent Unit) :=
  reportedIdle ++
  [.sched (.submit { now := 2 } (.queueJob "alice@host" "cloud" [])),
    .sched (.submit { now := 2 } (.commit "0.server"))] ++
  cycle 1 ++ reclaimed 1

/-- The controller deletes a node that lists a running job. -/
theorem tick_deregisters_busy_node :
    (runOf startedMeanwhile).Deregisters (.call { now := 3 }) "vm-1" ∧
      (runOf startedMeanwhile).world.server.assigned "vm-1" = ["0.server"] ∧
      "vm-1" ∉ ((runOf startedMeanwhile).next (.call { now := 3 })).world.server.nodeMgr := by
  have facts : (runOf startedMeanwhile).calls.head?.map Call.leaving = some ["vm-1"] ∧
      (runOf startedMeanwhile).world.server.assigned "vm-1" = ["0.server"] ∧
      "vm-1" ∉ ((runOf startedMeanwhile).next (.call { now := 3 })).world.server.nodeMgr := by
    decide +kernel
  obtain ⟨leaving, rest⟩ := facts
  obtain ⟨call, first, same⟩ := Option.map_eq_some_iff.mp leaving
  exact ⟨⟨_, rfl, first.trans (congrArg some (leaving_eq (by simp [same])))⟩, rest⟩

end Cloud

end OpenTorque.Cec
