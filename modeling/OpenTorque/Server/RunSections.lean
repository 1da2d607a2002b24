import OpenTorque.Server.Lifecycle

/-! `RunJob` as a program of critical sections. The state test, the reservation of the
nodes and the change of the state are sections of their own, so requests for one job may
come between each other; elsewhere the handler is taken as one step. -/
namespace OpenTorque.Pbs
open Transition

/-- What a `RunJob` request still has to do, with what it has read. The pointers it
holds are a job's id and the names of nodes. -/
inductive Stage where
  | called (given dest : String)
  | active (given dest : String)
  | found (id dest : String)
  | ready (id dest : String)
  | identifying (id dest : String)
  | ownerLimit (id dest owner group : String)
  | groupLimit (id dest group : String)
  | listing (id dest : String)
  | depending (id dest : String) (todo : List (String × String))
  | failing (id comment : String)
  | locating (id dest : String)
  | anchored (id first : String) (port : Int)
  | choosing (id first : String) (port count ppn : Int)
  | selecting (id : String) (port count ppn : Int) (todo selected : List String)
  | reserving (id : String) (port count ppn : Int) (todo reserved : List String)
  | single (id name : String) (port : Int)
  | marking (id : String) (port : Int) (size : Option (Int × Int)) (names : List String)
  | settling (id queue : String) (old : JobState) (names : List String)
  | saving (id : String) (names : List String)
  | dispatching (id : String) (todo : List String)
  | answered
  deriving DecidableEq

namespace Server

def reading (s : Server) (id : String) (here : Stage) (read : Job → Stage) : Server × Stage :=
  (s, (s.jobMgr.object id).elim here read)

def writing (s : Server) (id : String) (here : Stage) (write : Job → Server × Stage) : Server × Stage :=
  (s.jobMgr.object id).elim (s, here) write

/-- The MOM port of a node, or the one read before if the node has gone. -/
def portOf (s : Server) (name : String) (port : Int) : Int :=
  ((s.nodeMgr.lookup name).map (·.momPort)).getD port

/-- The job as `RunJob` leaves it. -/
def marked (j : Job) (now : Time) (size : Option (Int × Int)) (names : List String) (port : Int) : Job :=
  ((size.elim j fun (count, ppn) => sized j count ppn).setExec (execHostOf names) port).setState
    now .running

/-- The next section of a `RunJob` request. -/
def section_ (s : Server) (env : Env) (stage : Stage) : Server × Stage :=
  match stage with
  | .called given dest =>
    (s, if s.haEnabled && !s.haActive then .answered else .active given dest)
  | .active given dest =>
    (s, (s.getJob env given).elim .answered fun found => .found found.1 dest)
  | .found id dest => s.reading id stage fun j =>
      if j.state ≠ .queued ∧ j.state ≠ .provisioning then .answered else .ready id dest
  | .ready id dest =>
    (s, if s.belowLimit "max_running" (s.jobMgr.countByState .running) then .identifying id dest
      else .answered)
  | .identifying id dest => s.reading id stage fun j => .ownerLimit id dest j.owner (j.text .egroup)
  | .ownerLimit id dest owner group =>
    (s, if s.belowLimit "max_user_run" (s.jobMgr.countRunningByOwner owner) then
      .groupLimit id dest group else .answered)
  | .groupLimit id dest group =>
    (s, if group = "" || s.belowLimit "max_group_run" (s.jobMgr.countRunningByGroup group) then
      .listing id dest else .answered)
  | .listing id dest => s.reading id stage fun j => .depending id dest (dependencies j.dependList)
  | .depending id dest (next :: todo) =>
    match s.dependency env next with
    | .met => (s, .depending id dest todo)
    | .unmet => (s, .answered)
    | .failed comment => (s, .failing id comment)
  | .failing id comment => s.writing id stage fun j =>
      (s.onJobs (·.putObject id (j.setComment comment)), .answered)
  | .depending id dest [] => (s, if dest = "" then .answered else .locating id dest)
  | .locating id dest =>
    (s, (s.nodeMgr.lookup (Text.before '/' dest)).elim .answered fun n =>
      .anchored id (Text.before '/' dest) n.momPort)
  | .anchored id first port => s.reading id stage fun j =>
      if 1 < j.nodeRequest.1 then .choosing id first port j.nodeRequest.1 j.nodeRequest.2
      else .single id first port
  | .choosing id first port count ppn =>
    (s, .selecting id port count ppn (s.allNodes env) [first])
  | .selecting id port count ppn [] selected =>
    (s, if (selected.length : Int) < count then .answered
      else .reserving id port count ppn selected [])
  | .selecting id port count ppn (name :: todo) selected =>
    if count ≤ selected.length then (s, .reserving id port count ppn selected [])
    else if name ∉ selected ∧ (s.nodeMgr.lookup name).any fun n => n.isFree && ppn ≤ n.availableSlots then
      (s, .selecting id port count ppn todo (selected ++ [name]))
    else (s, .selecting id port count ppn todo selected)
  | .reserving id port count ppn (name :: todo) reserved =>
    (s.onNode name (·.assignJob id ppn), .reserving id port count ppn todo (reserved ++ [name]))
  | .reserving id port count ppn [] reserved =>
    (s, .marking id port (some (count, ppn)) reserved)
  | .single id name port => s.writing id stage fun j =>
      (s.onNode name (·.assignJob id j.requestedCPUs), .marking id (s.portOf name port) none [name])
  | .marking id port size names => s.writing id stage fun j =>
      let port := if size.isSome then s.portOf (names.headD "") port else port
      (s.onJobs (·.putObject id (marked j env.now size names port)),
        .settling id j.queue j.state names)
  | .settling id queue old names =>
    (s.onQueue queue (·.transferJobState old .running), .saving id names)
  | .saving id names => s.writing id stage fun j => (s.saveJob id j, .dispatching id names)
  | .dispatching id (name :: todo) =>
    (s.spawn [{ job := id, node := name, detached := name ∉ s.nodeMgr }], .dispatching id todo)
  | .dispatching _ [] => (s, .answered)
  | .answered => (s, .answered)

end Server

/-- How far a request is with the nodes of its job: the nodes it has reserved and those
it is about to, or after the change of the state those it has still to dispatch to. -/
inductive Phase where
  | testing
  | chosen (names : List String)
  | reserving (id : String) (reserved todo : List String)
  | dispatching (id : String) (todo : List String)
  | finished
  deriving DecidableEq

/-- The request has reserved a node for the job and not yet changed its state. -/
def Phase.holds (id : String) : Phase → Bool
  | .reserving job reserved _ => job = id && reserved ≠ []
  | _ => false

/-- The nodes that the request has chosen and not yet dispatched to. -/
def Phase.pending : Phase → List String
  | .chosen names => names
  | .reserving _ reserved todo => reserved ++ todo
  | .dispatching _ todo => todo
  | _ => []

/-- The request has not changed the state of its job yet. -/
def Phase.early : Phase → Bool
  | .testing | .chosen _ | .reserving .. => true
  | _ => false

namespace Stage

def phase : Stage → Phase
  | .selecting _ _ _ _ _ selected => .chosen selected
  | .reserving id _ _ _ todo reserved => .reserving id reserved todo
  | .single id name _ => .reserving id [] [name]
  | .marking id _ _ names => .reserving id names []
  | .settling id _ _ names | .saving id names | .dispatching id names => .dispatching id names
  | .answered => .finished
  | _ => .testing

/-- The `AssignJob` call of the next section. -/
def reserves (s : Server) : Stage → Option (String × String)
  | .reserving id _ _ _ (name :: _) _ => some (id, name)
  | .single id name _ => if (s.jobMgr.object id).isSome then some (id, name) else none
  | _ => none

/-- The `dispatchJobToMOM` that the next section starts. -/
def starts : Stage → Option (String × String)
  | .dispatching id (name :: _) => some (id, name)
  | _ => none

end Stage

/-- What a section does to the phase of its request, with the reservation it makes and the
dispatch it starts. -/
inductive Moves (t : Server) :
    Phase → Option (String × String) → Option (String × String) → Phase → Prop where
  | stays : Moves t p none none p
  | refused : Moves t .testing none none .finished
  | short : Moves t (.chosen names) none none .finished
  | anchored : Moves t .testing none none (.chosen [name])
  | added (other : name ∉ names) : Moves t (.chosen names) none none (.chosen (names ++ [name]))
  | complete {id : String} : Moves t (.chosen names) none none (.reserving id [] names)
  | alone {id : String} : Moves t .testing none none (.reserving id [] [name])
  | reserved {id : String} : Moves t (.reserving id earlier (name :: todo)) (some (id, name)) none
      (.reserving id (earlier ++ [name]) todo)
  | marked {id : String} (running : (t.jobMgr.object id).any (·.state = .running) = true) :
      Moves t (.reserving id names []) none none (.dispatching id names)
  | started {id : String} : Moves t (.dispatching id (name :: todo)) none (some (id, name)) (.dispatching id todo)
  | ended {id : String} : Moves t (.dispatching id []) none none .finished

/-- The server and the `RunJob` requests under way. -/
structure Handlers where
  server : Server
  requests : Assoc Stage := ∅

inductive Act where
  | call (r given dest : String)
  | advance (r : String) (env : Env)
  | other (env : Env) (step : Step)

def Step.runs : Step → Bool
  | .request (.runJob ..) => true
  | _ => false

namespace Handlers

def next (w : Handlers) : Act → Handlers
  | .call r given dest =>
    if r ∈ w.requests then w else { w with requests := w.requests.insert r (.called given dest) }
  | .advance r env =>
    match w.requests.lookup r with
    | none => w
    | some stage =>
      { server := (w.server.section_ env stage).1
        requests := w.requests.insert r (w.server.section_ env stage).2 }
  | .other env step => if step.runs then w else { w with server := w.server.step env step }

def running (w : Handlers) (id : String) : Bool := (w.server.jobMgr.object id).any (·.state = .running)

def stage (w : Handlers) : Act → Option (String × Stage)
  | .advance r _ => (w.requests.lookup r).map (r, ·)
  | _ => none

end Handlers

/-- The assignments of each job since it last stopped running, with the requests that
made them, and all dispatches that requests have started. -/
structure Episodes where
  assigned : String → List (String × String) := fun _ => []
  started : List (String × String × String) := []

namespace Handlers

def reserves (w : Handlers) (a : Act) (id : String) : List (String × String) :=
  match w.stage a with
  | some (r, stage) => ((stage.reserves w.server).filter (·.1 = id)).toList.map (r, ·.2)
  | none => []

def starts (w : Handlers) (a : Act) : List (String × String × String) :=
  match w.stage a with
  | some (r, stage) => stage.starts.toList.map (r, ·)
  | none => []

def noteRuns (w : Handlers) (a : Act) (h : Episodes) : Episodes where
  assigned id := if w.running id && !(w.next a).running id then []
    else h.assigned id ++ w.reserves a id
  started := h.started ++ w.starts a

/-- The dispatches of a job to a node by requests that have assigned it. -/
def dispatchesTo (h : Episodes) (id name : String) : List (String × String × String) :=
  h.started.filter fun d => d.2 = (id, name) && (h.assigned id).any (·.1 = d.1)

end Handlers

/-- Since a job last stopped running at most one request has assigned it, and has started
at most one dispatch of it to each node. -/
structure Episodes.Single (h : Episodes) : Prop where
  request : ∀ id, ∀ p ∈ h.assigned id, ∀ q ∈ h.assigned id, p.1 = q.1
  dispatch : ∀ id name, (Handlers.dispatchesTo h id name).length ≤ 1

namespace Handlers
variable {w : Handlers} {h : Episodes} {a : Act} {r id name : String} {stage : Stage}

/-- A request that is about to make its first reservation finds the job ready to run and
no other request between its first reservation and the change of the state. -/
def Orderly (w : Handlers) (a : Act) : Prop :=
  ∀ act ∈ w.stage a, ∀ target ∈ act.2.reserves w.server, act.2.phase.holds target.1 = false →
    (w.server.jobMgr.object target.1).any (fun j => j.state = .queued ∨ j.state = .provisioning) = true ∧
    ∀ other stage, w.requests.lookup other = some stage → other ≠ act.1 → stage.phase.holds target.1 = false

/-- The requests that stand between reservation and change of the state, and what the
history says of them. -/
structure Paired (w : Handlers) (h : Episodes) : Prop where
  alone : ∀ id r stage r' stage', w.requests.lookup r = some stage → w.requests.lookup r' = some stage' →
    stage.phase.holds id = true → stage'.phase.holds id = true → r = r'
  holder : ∀ id r stage, w.requests.lookup r = some stage → stage.phase.holds id = true →
    ∀ p ∈ h.assigned id, p.1 = r
  same : ∀ id, ∀ p ∈ h.assigned id, ∀ q ∈ h.assigned id, p.1 = q.1
  live : ∀ id, ∀ p ∈ h.assigned id,
    (∃ stage, w.requests.lookup p.1 = some stage ∧ stage.phase.holds id = true) ∨ w.running id = true

end Handlers

theorem JobManager.object_putObject (m : JobManager) (id : String) (j : Job) :
    (m.putObject id j).object id = some j := by
  rw [putObject, object]
  split
  · simp
  case isFalse absent => simp [AList.lookup_eq_none.mpr absent]

namespace Server
variable (s : Server) (env : Env)

/-- A section that reads the job. -/
theorem reading_moves {id : String} (read : Job → Stage) (plain : here.reserves s = none) (unstarted : here.starts = none)
    (moves : ∀ j, Moves s here.phase none none (read j).phase) :
    Moves (s.reading id here read).1 here.phase (here.reserves s) here.starts
      (s.reading id here read).2.phase := by
  rw [plain, unstarted, reading]
  cases s.jobMgr.object id with
  | none => exact .stays
  | some j => exact moves j

/-- Every section moves its request on in one of the ways listed. -/
theorem section_moves (stage : Stage) :
    Moves (s.section_ env stage).1 stage.phase (stage.reserves s) stage.starts
      (s.section_ env stage).2.phase := by
  cases stage with
  | called | ready | ownerLimit | groupLimit =>
    simp only [section_]
    split <;> first | exact .refused | exact .stays
  | active given =>
    simp only [section_]
    cases s.getJob env given with
    | none => exact .refused
    | some found => exact .stays
  | found id dest =>
    refine reading_moves s _ rfl rfl fun j => ?_
    split
    · exact .refused
    · exact .stays
  | identifying | listing => exact reading_moves s _ rfl rfl fun j => .stays
  | depending id dest todo =>
    cases todo with
    | nil =>
      simp only [section_]
      split
      · exact .refused
      · exact .stays
    | cons next todo =>
      simp only [section_]
      split <;> first | exact .stays | exact .refused
  | failing id comment =>
    simp only [section_, writing]
    cases s.jobMgr.object id with
    | none => exact .stays
    | some j => exact .refused
  | locating id dest =>
    simp only [section_]
    cases s.nodeMgr.lookup (Text.before '/' dest) with
    | none => exact .refused
    | some n => exact .stays
  | anchored id first port =>
    refine reading_moves s _ rfl rfl fun j => ?_
    split
    · exact .stays
    · exact .alone
  | choosing => exact .anchored
  | selecting id port count ppn todo selected =>
    cases todo with
    | nil =>
      simp only [section_]
      split
      · exact .short
      · exact .complete
    | cons name todo =>
      simp only [section_]
      split
      · exact .complete
      split
      case isTrue free => exact .added free.1
      case isFalse => exact .stays
  | reserving id port count ppn todo reserved =>
    cases todo with
    | nil => exact .stays
    | cons name todo => exact .reserved
  | single id name port =>
    simp only [section_, writing, Stage.reserves]
    cases s.jobMgr.object id with
    | none => exact .stays
    | some j => exact .reserved
  | marking id port size names =>
    simp only [section_, writing]
    cases s.jobMgr.object id with
    | none => exact .stays
    | some j =>
      refine .marked ?_
      simp only [Option.elim_some, onJobs_jobMgr, JobManager.object_putObject, Option.any_some]
      rfl
  | settling => exact .stays
  | saving id names =>
    simp only [section_, writing]
    cases s.jobMgr.object id with
    | none => exact .stays
    | some j => exact .stays
  | dispatching id todo =>
    cases todo with
    | nil => exact .ended
    | cons name todo => exact .started
  | answered => exact .stays

end Server

/-- The sections of a request one after the other, until it is answered. -/
def Stage.Runs (env : Env) (s : Server) (stage : Stage) (t : Server) : Prop :=
  ∃ n, (fun w : Server × Stage => w.1.section_ env w.2)^[n] (s, stage) = (t, .answered)

namespace Stage.Runs
variable {env : Env} {s t : Server} {stage : Stage} {id dest given : String} {j : Job}
  {port count ppn : Int} {names todo : List String}

theorem answered : Runs env s .answered s := ⟨0, rfl⟩

theorem step (rest : Runs env (s.section_ env stage).1 (s.section_ env stage).2 t) :
    Runs env s stage t := by
  obtain ⟨n, done⟩ := rest
  exact ⟨n + 1, done⟩

theorem dispatching (present : ∀ name ∈ names, name ∈ s.nodeMgr) : Runs env s (.dispatching id names)
    (s.spawn (names.map fun name => { job := id, node := name })) := by
  induction names generalizing s with
  | nil =>
    refine step ?_
    simp only [Server.section_, List.map_nil, Server.spawn, List.append_nil]
    exact answered
  | cons name names ih =>
    refine step ?_
    have here : name ∈ s.nodeMgr := present name (by simp)
    have rest := ih (s := s.spawn [{ job := id, node := name }])
      fun name member => present name (by simp [member])
    simpa [Server.section_, here, Server.spawn] using rest

theorem object_of_job (found : s.job id = some j) : s.jobMgr.object id = some j := by
  have here : s.jobMgr.jobs.lookup id = some j := found
  simp [JobManager.object, here]

theorem putObject_of_job (found : s.job id = some j) (k : Job) :
    s.onJobs (·.putObject id k) = s.putJob id k := by
  have present : id ∈ s.jobMgr.jobs := Assoc.mem_of_lookup found
  simp [Server.onJobs, JobManager.putObject, present]

/-- From the change of the state on, for a job that is in the manager. -/
theorem marking (found : s.job id = some j) (size : Option (Int × Int))
    (present : ∀ name ∈ names, name ∈ s.nodeMgr)
    (first : size.isSome = true → s.portOf (names.headD "") port = port) :
    Runs env s (.marking id port size names)
      ((((s.putJob id (Server.marked j env.now size names port)).onQueue j.queue
        (·.transferJobState j.state .running)).saveJob id
          (Server.marked j env.now size names port)).spawn
        (names.map fun name => { job := id, node := name })) := by
  have same : (if size.isSome = true then s.portOf (names.headD "") port else port) = port := by
    split
    · exact first ‹_›
    · rfl
  refine step (step (step ?_))
  simp only [Server.section_, Server.writing, object_of_job found, Option.elim_some, same,
    putObject_of_job found]
  have now : ((s.putJob id (Server.marked j env.now size names port)).onQueue j.queue
      (·.transferJobState j.state .running)).jobMgr.object id =
        some (Server.marked j env.now size names port) :=
    object_of_job (by simp)
  rw [now]
  exact dispatching present

/-- A job for one node. -/
theorem single (found : s.job id = some j) (here : s.nodeMgr.lookup name = some n) :
    Runs env s (.single id name n.momPort) (s.start env id j [name] j.requestedCPUs n.momPort) := by
  refine step ?_
  have port : s.portOf name n.momPort = n.momPort := by simp [Server.portOf, here]
  simp only [Server.section_, Server.writing, object_of_job found, Option.elim_some, port]
  refine marking (s := s.onNode name (·.assignJob id j.requestedCPUs)) found none ?_ nofun
  intro name' member
  rw [List.mem_singleton.mp member]
  exact Server.mem_onNode.mpr (Assoc.mem_of_lookup here)

theorem portOf_assign (name x : String) (slots port : Int) :
    (s.onNode name (·.assignJob id slots)).portOf x port = s.portOf x port := by
  rw [Server.portOf, Server.portOf, Server.onNodes_nodeMgr, NodeManager.onNode]
  split
  · rfl
  case h_2 n here =>
    by_cases same : x = name
    · rw [same, AList.lookup_insert, here]
      rfl
    · rw [AList.lookup_insert_ne same]

section
variable (found : s.job id = some j)
include found

/-- The reservations of a job for several nodes, and what comes after them. -/
theorem reserving {reserved : List String}
    (present : ∀ name ∈ reserved ++ todo, name ∈ s.nodeMgr)
    (first : s.portOf ((reserved ++ todo).headD "") port = port) :
    Runs env s (.reserving id port count ppn todo reserved)
      (((((s.assignOn todo id ppn).putJob id
        (Server.marked j env.now (some (count, ppn)) (reserved ++ todo) port)).onQueue j.queue
          (·.transferJobState j.state .running)).saveJob id
            (Server.marked j env.now (some (count, ppn)) (reserved ++ todo) port)).spawn
        ((reserved ++ todo).map fun name => { job := id, node := name })) := by
  induction todo generalizing s reserved with
  | nil =>
    rw [List.append_nil] at *
    exact step (marking found (some (count, ppn)) present fun _ => first)
  | cons name todo ih =>
    have names : reserved ++ name :: todo = (reserved ++ [name]) ++ todo := by simp
    rw [names] at present first ⊢
    refine step (ih (s := s.onNode name (·.assignJob id ppn)) found ?_ ?_)
    · exact fun x member => Server.mem_onNode.mpr (present x member)
    · rw [portOf_assign, first]

theorem reserved (present : ∀ name ∈ names, name ∈ s.nodeMgr)
    (first : s.portOf (names.headD "") port = port) :
    Runs env s (.reserving id port count ppn names [])
      (s.start env id (Server.sized j count ppn) names ppn port) :=
  reserving found present first

/-- The loop of `runJobMulti` over the nodes. -/
theorem selecting {first : String} {selected : List String}
    (port_eq : s.portOf first port = port) (start : selected.headD "" = first) (mem : first ∈ selected)
    (present : ∀ name ∈ selected ++ todo, name ∈ s.nodeMgr) (distinct : todo.Nodup)
    (other : ∀ name ∈ todo, name ∈ selected → name = first) :
    let chosen := selected ++ (todo.filter fun name => name ≠ first &&
      (s.nodeMgr.lookup name).any fun n => n.isFree && ppn ≤ n.availableSlots).take
        (count - selected.length).toNat
    Runs env s (.selecting id port count ppn todo selected)
      (if (chosen.length : Int) < count then s
        else s.start env id (Server.sized j count ppn) chosen ppn port) := by
  induction todo generalizing selected with
  | nil =>
    simp only [List.filter_nil, List.take_nil, List.append_nil] at present ⊢
    refine step ?_
    simp only [Server.section_]
    split
    · exact answered
    · exact reserved found present (start ▸ port_eq)
  | cons name todo ih =>
    rw [List.nodup_cons] at distinct
    refine step ?_
    simp only [Server.section_]
    split
    case isTrue enough =>
      have none : (count - selected.length).toNat = 0 := by omega
      simp only [none, List.take_zero, List.append_nil, if_neg (not_lt.mpr enough)]
      exact reserved found (fun x member => present x (by simp [member])) (start ▸ port_eq)
    case isFalse few =>
      split
      case isTrue free =>
        have fresh : name ≠ first := fun same => free.1 (same ▸ mem)
        have left : (count - selected.length).toNat =
            (count - (selected ++ [name]).length).toNat + 1 := by
          simp only [List.length_append, List.length_singleton]
          omega
        have rest := @ih (selected ++ [name]) (by
          cases selected with
          | nil => cases mem
          | cons => exact start) (by simp [mem]) (by simpa using present) distinct.2 ?_
        · simpa [List.filter_cons, fresh, free.2, left] using rest
        · intro x member chosen
          rcases List.mem_append.mp chosen with before | new
          · exact other x (by simp [member]) before
          · rw [List.mem_singleton.mp new] at member
            exact absurd member distinct.1
      case isFalse skipped =>
        have rest := ih start mem (fun x member => present x (by
          rcases List.mem_append.mp member with here | later <;> simp [*])) distinct.2
          fun x member => other x (by simp [member])
        rw [List.filter_cons_of_neg]
        · exact rest
        · simp only [Bool.and_eq_true, decide_eq_true_eq]
          rintro ⟨fresh, free⟩
          exact skipped ⟨fun chosen => fresh (other name (by simp) chosen), free⟩

/-- A request whose state test has passed. -/
theorem cleared : Runs env s (.depending id dest [])
    (if dest = "" then s
      else match s.nodeMgr.lookup (Text.before '/' dest) with
        | none => s
        | some n => s.runOnNode env id j (Text.before '/' dest) n) := by
  refine step ?_
  simp only [Server.section_]
  split
  · exact answered
  refine step ?_
  simp only [Server.section_]
  split
  case h_1 absent =>
    rw [absent]
    exact answered
  case h_2 n here =>
    rw [here]
    refine step ?_
    simp only [Server.section_, Server.reading, object_of_job found, Option.elim_some, Server.runOnNode]
    split
    case isTrue several =>
      refine step ?_
      have port : s.portOf (Text.before '/' dest) n.momPort = n.momPort := by
        simp [Server.portOf, here]
      have nodes : ∀ name ∈ [Text.before '/' dest] ++ s.allNodes env, name ∈ s.nodeMgr := by
        intro name member
        rcases List.mem_append.mp member with anchor | listed
        · rw [List.mem_singleton.mp anchor]
          exact Assoc.mem_of_lookup here
        · exact (Assoc.mem_range _ _).mp listed
      exact selecting found port rfl (by simp) nodes (Assoc.nodup_range _ _)
        fun name _ anchor => List.mem_singleton.mp anchor
    case isFalse => exact single found here

/-- The dependencies of a job, one section each. -/
theorem depending (todo : List (String × String)) :
    Runs env s (.depending id dest todo)
      (match (((todo.map (s.dependency env)).find? (· ≠ .met)).getD .met) with
        | .unmet => s
        | .failed comment => s.putJob id (j.setComment comment)
        | .met => if dest = "" then s
          else match s.nodeMgr.lookup (Text.before '/' dest) with
            | none => s
            | some n => s.runOnNode env id j (Text.before '/' dest) n) := by
  induction todo with
  | nil => exact cleared found
  | cons next todo ih =>
    refine step ?_
    simp only [Server.section_, List.map_cons, List.find?_cons]
    cases s.dependency env next with
    | met => exact ih
    | unmet => exact answered
    | failed comment =>
      refine step ?_
      simp only [Server.section_, Server.writing, object_of_job found, Option.elim_some,
        putObject_of_job found]
      exact answered

/-- The tests of the run limits, one section each. -/
theorem limits (rest : Runs env s (.listing id dest) t) :
    Runs env s (.ready id dest) (if s.enforceRunLimits j then t else s) := by
  refine step ?_
  simp only [Server.section_, Server.enforceRunLimits]
  by_cases total : s.belowLimit "max_running" (s.jobMgr.countByState .running) = true
  case neg => simpa [total] using answered
  simp only [total, if_true, Bool.true_and]
  refine step (step ?_)
  simp only [Server.section_, Server.reading, object_of_job found, Option.elim_some]
  by_cases owner : s.belowLimit "max_user_run" (s.jobMgr.countRunningByOwner j.owner) = true
  case neg => simpa [owner] using answered
  simp only [owner, if_true, Bool.true_and]
  refine step ?_
  simp only [Server.section_]
  split
  · exact rest
  · exact answered

end

end Stage.Runs

/-- Without another step in between, the sections of a request do what the handler does. -/
theorem Server.handleRunJob_runs (s : Server) (env : Env) (given dest : String) :
    Stage.Runs env s (.called given dest) (s.handleRunJob env given dest).server := by
  refine .step ?_
  unfold handleRunJob
  simp only [section_]
  split
  · exact .answered
  refine .step ?_
  simp only [section_]
  cases resolved : s.getJob env given with
  | none => exact .answered
  | some entry =>
    obtain ⟨id, j⟩ := entry
    have found : s.job id = some j := job_of_getJob resolved
    have object := Stage.Runs.object_of_job found
    refine .step ?_
    simp only [Option.elim_some, section_, reading, object]
    split
    · exact .answered
    have listed : Stage.Runs env s (.listing id dest) _ :=
      .step (by
        simp only [section_, reading, object, Option.elim_some]
        exact Stage.Runs.depending found (dependencies j.dependList))
    have limited := Stage.Runs.limits found listed
    convert limited using 1
    by_cases allowed : s.enforceRunLimits j = true
    case neg => simp [allowed, refuse, answer]
    simp only [allowed, if_true, Bool.not_true, Bool.false_eq_true, if_false, checkDependencies]
    generalize ((List.find? _ _).getD Dependency.met) = verdict
    cases verdict with
    | unmet | failed => rfl
    | met =>
      simp only
      split
      · rfl
      · cases s.nodeMgr.lookup (Text.before '/' dest) <;> rfl

namespace Moves
variable {t : Server} {p p' : Phase} {reservation start : Option (String × String)} {id name : String}

theorem holds_cases (moves : Moves t p reservation start p') (holding : p'.holds id = true) :
    p.holds id = true ∨ ∃ name, reservation = some (id, name) := by
  cases moves with
  | stays => exact .inl holding
  | reserved =>
    simp only [Phase.holds, Bool.and_eq_true, decide_eq_true_eq] at holding
    obtain ⟨rfl, -⟩ := holding
    exact .inr ⟨_, rfl⟩
  | refused | short | anchored | added | complete | alone | marked | started | ended =>
    simp [Phase.holds] at holding

theorem holds_or_running (moves : Moves t p reservation start p') (holding : p.holds id = true) :
    p'.holds id = true ∨ (t.jobMgr.object id).any (·.state = .running) = true := by
  cases moves with
  | stays => exact .inl holding
  | reserved =>
    simp only [Phase.holds, Bool.and_eq_true, decide_eq_true_eq] at holding
    simp [Phase.holds, holding.1]
  | marked running =>
    simp only [Phase.holds, Bool.and_eq_true, decide_eq_true_eq] at holding
    obtain ⟨rfl, -⟩ := holding
    exact .inr running
  | refused | short | anchored | added | complete | alone | started | ended =>
    simp [Phase.holds] at holding

theorem holds_of_reserves (moves : Moves t p (some (id, name)) start p') : p'.holds id = true := by
  cases moves
  simp [Phase.holds]

end Moves

namespace Handlers
variable {w : Handlers} {h : Episodes} {a : Act} {r id name : String} {stage : Stage}

theorem next_advance (env : Env) (found : w.requests.lookup r = some stage) :
    w.next (.advance r env) =
      { server := (w.server.section_ env stage).1
        requests := w.requests.insert r (w.server.section_ env stage).2 } := by
  simp [next, found]

/-- An act that is no section of a request at most adds one. -/
theorem next_idle (idle : w.stage a = none) : (w.next a).requests = w.requests ∨
    ∃ r given dest, r ∉ w.requests ∧
      (w.next a).requests = w.requests.insert r (.called given dest) := by
  cases a with
  | call r given dest =>
    simp only [next]
    split
    · exact .inl rfl
    case isFalse fresh => exact .inr ⟨r, given, dest, fresh, rfl⟩
  | advance r env =>
    have none : w.requests.lookup r = none := by simpa [stage] using idle
    simp [next, none]
  | other env step =>
    simp only [next]
    split <;> exact .inl rfl

theorem Paired.idle (paired : w.Paired h) (idle : w.stage a = none) :
    (w.next a).Paired (w.noteRuns a h) := by
  have stages : ∀ x stage, (w.next a).requests.lookup x = some stage →
      w.requests.lookup x = some stage ∨ stage.phase = .testing := by
    intro x stage found
    rcases next_idle idle with same | ⟨r, given, dest, -, called⟩
    · exact .inl (same ▸ found)
    · rw [called, Assoc.lookup_insert_ite] at found
      split at found
      · cases found
        exact .inr rfl
      · exact .inl found
  have kept : ∀ x stage, w.requests.lookup x = some stage →
      (w.next a).requests.lookup x = some stage := by
    intro x stage found
    rcases next_idle idle with same | ⟨r, given, dest, fresh, called⟩
    · exact same ▸ found
    · rw [called, AList.lookup_insert_ne]
      · exact found
      · rintro rfl
        exact fresh (Assoc.mem_of_lookup found)
  have holder : ∀ x stage id, (w.next a).requests.lookup x = some stage →
      stage.phase.holds id = true → w.requests.lookup x = some stage := by
    intro x stage id found holding
    refine (stages x stage found).resolve_right fun testing => ?_
    simp [testing, Phase.holds] at holding
  have fewer : ∀ id, ∀ p ∈ (w.noteRuns a h).assigned id, p ∈ h.assigned id ∧
      (w.running id = true → (w.next a).running id = true) := by
    intro id p member
    simp only [noteRuns, reserves, idle, List.append_nil] at member
    split at member
    · cases member
    case isFalse still => exact ⟨member, by simpa using still⟩
  refine ⟨?_, ?_, ?_, ?_⟩
  · intro id r stage r' stage' found found' holds holds'
    exact paired.alone id r stage r' stage' (holder _ _ _ found holds) (holder _ _ _ found' holds')
      holds holds'
  · intro id r stage found holds p member
    exact paired.holder id r stage (holder _ _ _ found holds) holds p (fewer id p member).1
  · intro id p member q member'
    exact paired.same id p (fewer id p member).1 q (fewer id q member').1
  · intro id p member
    obtain ⟨before, running⟩ := fewer id p member
    refine (paired.live id p before).imp ?_ running
    rintro ⟨stage, found, holds⟩
    exact ⟨stage, kept _ _ found, holds⟩

/-- A request that reserves a node is the only one to have assigned the job, and no other
holds it. -/
theorem Paired.reserving (paired : w.Paired h) (orderly : w.Orderly a)
    (acting : w.stage a = some (r, stage)) (found : w.requests.lookup r = some stage)
    (reserves : stage.reserves w.server = some (id, name)) :
    (∀ p ∈ h.assigned id, p.1 = r) ∧
      ∀ other stage', w.requests.lookup other = some stage' → other ≠ r →
        stage'.phase.holds id = false := by
  cases holding : stage.phase.holds id with
  | true =>
    refine ⟨paired.holder id r stage found holding, fun other stage' there different => ?_⟩
    by_contra holds
    exact different (paired.alone id other stage' r stage there found (by simpa using holds) holding)
  | false =>
    obtain ⟨ready, others⟩ := orderly (r, stage) acting (id, name) reserves holding
    refine ⟨fun p member => ?_, others⟩
    exfalso
    rcases paired.live id p member with ⟨stage', there, holds⟩ | running
    · by_cases same : p.1 = r
      · rw [same, found] at there
        cases there
        rw [holding] at holds
        cases holds
      · rw [others p.1 stage' there same] at holds
        cases holds
    · rw [Handlers.running, Option.any_eq_true] at running
      obtain ⟨j, object, state⟩ := running
      simp [object] at ready
      rcases ready with queued | provisioning <;> simp_all

theorem Paired.advance (paired : w.Paired h) (orderly : w.Orderly a)
    (acting : w.stage a = some (r, stage)) : (w.next a).Paired (w.noteRuns a h) := by
  cases a with
  | call | other => cases acting
  | advance r' env =>
    obtain ⟨stage', found, same⟩ := Option.map_eq_some_iff.mp acting
    cases same
    have moves := w.server.section_moves env stage
    have stepped := next_advance env found
    generalize after : (w.server.section_ env stage).2 = stage' at *
    have requests : ∀ x, (w.next (.advance r env)).requests.lookup x =
        if x = r then some stage' else w.requests.lookup x := by
      intro x
      rw [stepped, Assoc.lookup_insert_ite]
    have members : ∀ id, ∀ p ∈ (w.noteRuns (.advance r env) h).assigned id,
        (w.running id = true → (w.next (.advance r env)).running id = true) ∧
        (p ∈ h.assigned id ∨ p.1 = r ∧ ∃ name, stage.reserves w.server = some (id, name)) := by
      intro id p member
      simp only [noteRuns, reserves, acting] at member
      split at member
      · cases member
      case isFalse still =>
        refine ⟨by simpa using still, (List.mem_append.mp member).imp_right fun made => ?_⟩
        simp only [List.mem_map, Option.mem_toList, Option.filter_eq_some_iff,
          decide_eq_true_eq] at made
        obtain ⟨⟨job, name⟩, ⟨target, rfl⟩, rfl⟩ := made
        exact ⟨rfl, name, target⟩
    have exclusive : ∀ id, stage'.phase.holds id = true →
        (∀ p ∈ h.assigned id, p.1 = r) ∧ ∀ x other, w.requests.lookup x = some other → x ≠ r →
          other.phase.holds id = false := by
      intro id holding
      rcases moves.holds_cases holding with before | ⟨name, reserves⟩
      · refine ⟨paired.holder id r stage found before, fun x other there different => ?_⟩
        by_contra holds
        exact different (paired.alone id x other r stage there found (by simpa using holds) before)
      · exact paired.reserving orderly acting found reserves
    refine ⟨?_, ?_, ?_, ?_⟩
    · intro id x first y second foundX foundY holdsX holdsY
      rw [requests] at foundX foundY
      split at foundX <;> split at foundY
      · simp_all
      · cases foundX
        rw [(exclusive id holdsX).2 y second foundY ‹_›] at holdsY
        cases holdsY
      · cases foundY
        rw [(exclusive id holdsY).2 x first foundX ‹_›] at holdsX
        cases holdsX
      · exact paired.alone id x first y second foundX foundY holdsX holdsY
    · intro id x other there holds p member
      obtain ⟨-, old | ⟨mine, name, reserves⟩⟩ := members id p member
      · rw [requests] at there
        split at there
        case isTrue same =>
          cases there
          rw [same]
          exact (exclusive id holds).1 p old
        case isFalse => exact paired.holder id x other there holds p old
      · rw [requests] at there
        split at there
        case isTrue same => rw [same, mine]
        case isFalse different =>
          rw [(paired.reserving orderly acting found reserves).2 x other there different] at holds
          cases holds
    · intro id p member q member'
      obtain ⟨-, old | ⟨mine, name, reserves⟩⟩ := members id p member
      · obtain ⟨-, old' | ⟨mine', name, reserves⟩⟩ := members id q member'
        · exact paired.same id p old q old'
        · rw [mine', (paired.reserving orderly acting found reserves).1 p old]
      · obtain ⟨-, old' | ⟨mine', -⟩⟩ := members id q member'
        · rw [mine, (paired.reserving orderly acting found reserves).1 q old']
        · rw [mine, mine']
    · intro id p member
      have here : (w.next (.advance r env)).requests.lookup r = some stage' := by simp [requests]
      obtain ⟨running, old | ⟨mine, name, reserves⟩⟩ := members id p member
      · rcases paired.live id p old with ⟨other, there, holds⟩ | before
        · by_cases same : p.1 = r
          · rw [same, found] at there
            cases there
            rw [same]
            refine (moves.holds_or_running holds).imp (fun holds => ⟨stage', here, holds⟩) fun now => ?_
            rwa [Handlers.running, stepped]
          · exact .inl ⟨other, by rw [requests, if_neg same, there], holds⟩
        · exact .inr (running before)
      · rw [reserves] at moves
        exact .inl ⟨stage', by rw [mine, here], moves.holds_of_reserves⟩

end Handlers

/-- The nodes a request has started dispatches to. -/
def Episodes.startedBy (h : Episodes) (r : String) : List String :=
  (h.started.filter (·.1 = r)).map (·.2.2)

theorem Moves.paced {t : Server} {p p' : Phase} {reservation start : Option (String × String)}
    {done : List String} (moves : Moves t p reservation start p') (distinct : (done ++ p.pending).Nodup)
    (fresh : p.early = true → done = []) :
    (done ++ start.toList.map (·.2) ++ p'.pending).Nodup ∧
      (p'.early = true → done ++ start.toList.map (·.2) = []) := by
  cases moves with
  | stays => simpa using ⟨distinct, fresh⟩
  | started => simpa [Phase.pending, Phase.early] using distinct
  | refused | short | anchored | alone => simp [Phase.pending, fresh rfl]
  | added other =>
    simp only [fresh rfl, Phase.pending, List.nil_append] at distinct
    simpa [Phase.pending, fresh rfl] using (List.nodup_cons.mpr ⟨other, distinct⟩).perm
      (List.perm_append_singleton _ _).symm
  | complete => simpa [Phase.pending, fresh rfl] using distinct
  | reserved => simpa [Phase.pending, fresh rfl] using distinct
  | marked => simpa [Phase.pending, Phase.early] using distinct
  | ended => simpa [Phase.pending, Phase.early] using distinct

namespace Handlers
variable {w : Handlers} {h : Episodes} {a : Act} {r id name : String} {stage : Stage}

/-- A request starts its dispatches after the change of the state, one to each of its
nodes. -/
def Paced (w : Handlers) (h : Episodes) : Prop :=
  ∀ r, (w.requests.lookup r = none → h.startedBy r = []) ∧
    ∀ stage, w.requests.lookup r = some stage →
      (h.startedBy r ++ stage.phase.pending).Nodup ∧ (stage.phase.early = true → h.startedBy r = [])

theorem startedBy_noteRuns (w : Handlers) (a : Act) (h : Episodes) (x : String) :
    (w.noteRuns a h).startedBy x = h.startedBy x ++
      (match w.stage a with
        | some (r, stage) => if r = x then stage.starts.toList.map (·.2) else []
        | none => []) := by
  simp only [Episodes.startedBy, noteRuns, List.filter_append, List.map_append, starts]
  congr 1
  split
  case h_1 r stage _ =>
    cases stage.starts with
    | none => simp
    | some target => by_cases same : r = x <;> simp [same]
  case h_2 => rfl

theorem Paced.next (paced : w.Paced h) : (w.next a).Paced (w.noteRuns a h) := by
  intro x
  cases acting : w.stage a with
  | none =>
    rw [startedBy_noteRuns, acting, List.append_nil]
    rcases next_idle acting with same | ⟨r, given, dest, fresh, called⟩
    · rw [same]
      exact paced x
    · rw [called, Assoc.lookup_insert_ite]
      split
      case isTrue same =>
        subst same
        have none := (paced x).1 (AList.lookup_eq_none.mpr fresh)
        refine ⟨nofun, fun stage called => ?_⟩
        cases called
        simp [none, Stage.phase, Phase.pending]
      case isFalse => exact paced x
  | some act =>
    obtain ⟨r, stage⟩ := act
    cases a with
    | call | other => cases acting
    | advance r' env =>
      obtain ⟨stage', found, same⟩ := Option.map_eq_some_iff.mp acting
      cases same
      have moves := w.server.section_moves env stage
      obtain ⟨distinct, fresh⟩ := (paced r).2 stage found
      rw [startedBy_noteRuns, acting, next_advance env found, Assoc.lookup_insert_ite]
      by_cases same : x = r
      · subst same
        simp only [if_true]
        refine ⟨nofun, fun after is => ?_⟩
        cases is
        exact moves.paced distinct fresh
      · simp only [if_neg same, if_neg (Ne.symm same), List.append_nil]
        exact paced x

theorem dispatchesTo_le_one (paired : w.Paired h) (paced : w.Paced h) (id name : String) :
    (dispatchesTo h id name).length ≤ 1 := by
  cases assigned : h.assigned id with
  | nil => simp [dispatchesTo, assigned]
  | cons p rest =>
    have mine : ∀ q ∈ h.assigned id, q.1 = p.1 := fun q member =>
      paired.same id q member p (by simp [assigned])
    have distinct : (h.startedBy p.1).Nodup := by
      cases found : w.requests.lookup p.1 with
      | none => simp [(paced p.1).1 found]
      | some stage => exact ((paced p.1).2 stage found).1.of_append_left
    calc (dispatchesTo h id name).length
      _ = h.started.countP fun d => d.2 = (id, name) && (h.assigned id).any (·.1 = d.1) :=
        (List.countP_eq_length_filter ..).symm
      _ ≤ h.started.countP fun d => d.2.2 == name && d.1 = p.1 := by
        refine List.countP_mono_left fun d _ counted => ?_
        simp only [Bool.and_eq_true, decide_eq_true_eq, List.any_eq_true, beq_iff_eq] at counted ⊢
        obtain ⟨target, q, member, request⟩ := counted
        exact ⟨congrArg Prod.snd target, request ▸ mine q member⟩
      _ = (h.startedBy p.1).count name := by
        simp [Episodes.startedBy, List.count, List.countP_map, List.countP_filter,
          Function.comp_def]
      _ ≤ 1 := List.nodup_iff_count_le_one.mp distinct name

/-- In every interleaving of `RunJob` sections and other steps in which a request makes its
first reservation only for a job that is ready and not being started by another, a job is
started by one request at a time. -/
theorem one_request_starts_job (s : Server) (acts : List Act)
    (orderly : Along (watched Handlers.next Handlers.noteRuns) (fun w a => w.1.Orderly a)
      ({ server := s }, {}) acts) :
    (acts.foldl (watched Handlers.next Handlers.noteRuns) ({ server := s }, {})).2.Single := by
  have kept := orderly.invariant (I := fun w => w.1.Paired w.2 ∧ w.1.Paced w.2) ?_ ?_
  · exact ⟨kept.1.same, dispatchesTo_le_one kept.1 kept.2⟩
  · rintro ⟨w, h⟩ a ⟨paired, paced⟩ met
    refine ⟨?_, paced.next⟩
    cases acting : w.stage a with
    | none => exact paired.idle acting
    | some act => exact paired.advance met acting
  · refine ⟨⟨?_, ?_, ?_, ?_⟩, ?_⟩
    · intro id r stage r' stage' found
      cases found
    · intro id r stage found
      cases found
    · intro id p member
      cases member
    · intro id p member
      cases member
    · intro r
      exact ⟨fun _ => rfl, fun stage found => by cases found⟩

instance (w : Handlers) (a : Act) : Decidable (w.Orderly a) :=
  inferInstanceAs (Decidable (∀ act ∈ w.stage a, ∀ target ∈ act.2.reserves w.server, _ → _))

def oneQueued : Server :=
  fromEmpty (atOnce [.manager (.createQueue "batch" []),
    .manager (.createNode "n1" [{ name := "np", value := "4" }]),
    .queueJob "alice@host" "batch" [], .commit "0.server"])

def sections (r : String) (count : Nat) : List Act := List.replicate count (.advance r { now := 2 })

/-- Two requests test the job. The first starts it, the dispatch fails, and then the second
goes on. -/
def startedAgain : List Act :=
  [.call "first" "0.server" "n1", .call "second" "0.server" "n1"] ++ sections "second" 11 ++
    sections "first" 17 ++ [.other { now := 3 } (.dispatchFailed { job := "0.server", node := "n1" })] ++
    sections "second" 6

def episodesOf (acts : List Act) : Episodes :=
  (acts.foldl (watched Handlers.next Handlers.noteRuns) ({ server := oneQueued }, {})).2

theorem one_request_starts_job_again :
    ((episodesOf startedAgain).assigned "0.server" = [("second", "n1")] ∧
      (episodesOf startedAgain).started = [("first", "0.server", "n1"), ("second", "0.server", "n1")]) ∧
      (episodesOf startedAgain).Single :=
  ⟨by decide +kernel, one_request_starts_job oneQueued startedAgain (by decide +kernel)⟩

/-- Two requests test the job before either of them changes its state. -/
def startedTwice : List Act :=
  [.call "first" "0.server" "n1", .call "second" "0.server" "n1"] ++ sections "second" 11 ++
    sections "first" 17 ++ sections "second" 6

/-- Both requests assign the job and dispatch it to the same node. -/
theorem two_requests_start_job :
    (episodesOf startedTwice).assigned "0.server" = [("first", "n1"), ("second", "n1")] ∧
      dispatchesTo (episodesOf startedTwice) "0.server" "n1" =
        [("first", "0.server", "n1"), ("second", "0.server", "n1")] ∧
      ¬ (episodesOf startedTwice).Single := by
  have facts : (episodesOf startedTwice).assigned "0.server" = [("first", "n1"), ("second", "n1")] ∧
      dispatchesTo (episodesOf startedTwice) "0.server" "n1" =
        [("first", "0.server", "n1"), ("second", "0.server", "n1")] := by
    decide +kernel
  refine ⟨facts.1, facts.2, fun single => ?_⟩
  have few := single.dispatch "0.server" "n1"
  rw [facts.2] at few
  exact absurd few (by decide)

end Handlers

end OpenTorque.Pbs
