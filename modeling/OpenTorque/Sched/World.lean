import OpenTorque.Sched.Loop
import OpenTorque.Server.Lifecycle

/-! The server and the scheduler side by side. A cycle takes its snapshot and then asks
for one job after another; submissions and obituaries may come in between. -/
namespace OpenTorque.Sched
open Pbs

/-- The requests of a submission. -/
inductive Submission where
  | queueJob (user dest : String) (attrs : List Attr)
  | jobScript (given data : String) (autoCommit : Bool)
  | commit (given : String)

def Submission.request : Submission → Request
  | .queueJob user dest attrs => .queueJob user dest attrs
  | .jobScript given data autoCommit => .jobScript given data autoCommit
  | .commit given => .commit given

/-- An obituary, with what the connection says of its sender. -/
structure Completion where
  remote : String
  privileged : Bool
  job : String
  status : Int
  attrs : List Attr

def Completion.request (c : Completion) : Request :=
  .jobObit c.remote c.privileged c.job c.status c.attrs

/-- A cycle that is under way. -/
structure Session (F : Type) where
  cfg : Config
  limited : Bool
  view : View
  queues : List QueueInfo
  attempt : Nat
  progress : Progress F

structure World (F : Type) where
  server : Server
  session : Option (Session F) := none

inductive Event (F : Type) where
  | begin (cfg : Config) (limited : Bool) (v : View) (usage : Assoc F)
  | turn (fuel : Nat)
  | submit (env : Env) (part : Submission)
  | complete (env : Env) (obituary : Completion)

section World
variable {F : Type} [GoFloat F]

def Session.opening (cfg : Config) (limited : Bool) (v : View) (usage : Assoc F) (s : Server) :
    Session F where
  cfg := cfg
  limited := limited
  view := v
  queues := cycleQueues cfg v usage s
  attempt := 0
  progress := .first cfg v usage s

def Session.turn (c : Session F) (fuel : Nat) (s : Server) : Option (Turn F) :=
  Sched.turn c.cfg c.limited c.view c.queues fuel c.attempt { c.progress with server := s }

/-- One event. A cycle begins only when none is under way, and a turn whose iterator does
not come back changes nothing. -/
def World.step (w : World F) : Event F → World F
  | .begin cfg limited v usage =>
    match w.session with
    | none => { server := counted v w.server, session := some (.opening cfg limited v usage w.server) }
    | some _ => w
  | .turn fuel =>
    match w.session with
    | none => w
    | some c =>
      match c.turn fuel w.server with
      | none => w
      | some (.stop p) => { server := p.server }
      | some (.go p) =>
        { server := p.server, session := some { c with attempt := c.attempt + 1, progress := p } }
  | .submit env part => { w with server := (w.server.handle env part.request).server }
  | .complete env obituary => { w with server := (w.server.handle env obituary.request).server }

/-- The `RunJob` request that the next turn of the cycle sends. -/
def Session.request (c : Session F) (fuel : Nat) : Option (Env × Request) :=
  if exhausted c.cfg c.limited c.view c.attempt then none
  else
    match c.progress.jobs.next fuel with
    | some (some j, _) =>
      (findNodeForJob c.cfg { queues := c.queues, nodes := c.progress.nodes } j).map fun node =>
        (c.view.runEnv c.attempt, runRequest j node)
    | _ => none

theorem Session.request_runJob {c : Session F} {fuel : Nat} {asked : Env × Request}
    (sent : c.request fuel = some asked) : ∃ j node, asked.2 = runRequest (F := F) j node := by
  rw [request] at sent
  split at sent
  · cases sent
  split at sent
  · obtain ⟨node, -, rfl⟩ := Option.map_eq_some_iff.mp sent
    exact ⟨_, node, rfl⟩
  · cases sent

theorem Session.turn_server {c : Session F} {fuel : Nat} {s : Server} {after : Turn F}
    (turned : c.turn fuel s = some after) :
    after.progress.server =
      (c.request fuel).elim s fun asked => (s.handle asked.1 asked.2).server := by
  rw [turn, Sched.turn] at turned
  rw [request]
  split at turned
  case isTrue beyond =>
    cases turned
    rw [if_pos beyond]
    rfl
  case isFalse going =>
    rw [if_neg going]
    obtain ⟨⟨job, rest⟩, called, same⟩ := Option.map_eq_some_iff.mp turned
    simp only at called
    rw [called, ← same]
    cases job with
    | none => rfl
    | some j =>
      simp only [consider]
      cases found : findNodeForJob c.cfg { queues := c.queues, nodes := c.progress.nodes } j with
      | none => exact (blocked_progress ..).1
      | some node =>
        simp only [Option.map_some, Option.elim_some]
        split
        · exact (started_progress ..).1
        · rfl

/-- The steps that an event makes the server take. -/
def World.serverSteps (w : World F) : Event F → List (Env × Step)
  | .begin _ _ v _ => if w.session.isNone then [(v.queueEnv, .request (.statusQueue ""))] else []
  | .turn fuel =>
    (w.session.bind (·.request fuel)).toList.map fun asked => (asked.1, .request asked.2)
  | .submit env part => [(env, .request part.request)]
  | .complete env obituary => [(env, .request obituary.request)]

/-- A run of the two programs is a run of the server. -/
theorem World.step_server (w : World F) (e : Event F) :
    (w.step e).server = (w.serverSteps e).foldl Server.next w.server := by
  cases e with
  | submit | complete => rfl
  | begin cfg limited v usage =>
    rw [step, serverSteps]
    cases w.session <;> rfl
  | turn fuel =>
    rw [step, serverSteps]
    cases w.session with
    | none => rfl
    | some c =>
      simp only [Option.bind_some]
      cases turned : c.turn fuel w.server with
      | none =>
        have silent : c.request fuel = none := by
          rw [Session.turn, Sched.turn] at turned
          rw [Session.request]
          split at turned
          · cases turned
          · rw [if_neg ‹_›, Option.map_eq_none_iff.mp turned]
        rw [silent]
        rfl
      | some after =>
        have server := Session.turn_server turned
        cases asked : c.request fuel with
        | none =>
          rw [asked] at server
          cases after <;> exact server
        | some request =>
          rw [asked] at server
          cases after <;> exact server

/-- The turns of one cycle with nothing in between. -/
theorem loop_turns {cfg : Config} {limited : Bool} {v : View} {queues : List QueueInfo} {fuel attempt : Nat}
    {p out : Progress F} (ended : loop cfg limited v queues fuel attempt p = some out) :
    ∃ turns : List Nat, (turns.map Event.turn).foldl World.step
      { server := p.server, session := some ⟨cfg, limited, v, queues, attempt, p⟩ } =
        { server := out.server } := by
  induction fuel generalizing attempt p with
  | zero => cases ended
  | succ fuel ih =>
    rw [loop] at ended
    split at ended
    · cases ended
    case h_2 after turned =>
      cases ended
      refine ⟨[fuel + 1], ?_⟩
      simp only [List.map_cons, List.map_nil, List.foldl_cons, List.foldl_nil, World.step, Session.turn,
        turned]
    case h_3 after turned =>
      obtain ⟨turns, run⟩ := ih ended
      refine ⟨(fuel + 1) :: turns, ?_⟩
      simp only [List.map_cons, List.foldl_cons, World.step, Session.turn, turned]
      exact run

/-- A cycle of the scheduler alone is a run of the two programs. -/
theorem runCycle_run {cfg : Config} {limited : Bool} {v : View} {fuel : Nat} {usage : Assoc F}
    {s : Server} {out : Outcome F} (ended : runCycle cfg limited v fuel usage s = some out) :
    ∃ turns : List Nat, (Event.begin cfg limited v usage :: turns.map Event.turn).foldl World.step
      { server := s } = { server := out.server } := by
  rw [runCycle_eq] at ended
  obtain ⟨p, looped, rfl⟩ := Option.map_eq_some_iff.mp ended
  exact loop_turns looped

end World

end OpenTorque.Sched
