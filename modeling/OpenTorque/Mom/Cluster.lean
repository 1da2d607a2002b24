import Mathlib.Algebra.BigOperators.Group.List.Basic
import OpenTorque.Server.Step
import OpenTorque.Mom.Daemon

/-! The server, the execution daemons and what is on the way between them. Any request,
reply or obituary may be lost or arrive after its sender has given up, and steps of the
parties interleave between the messages of one dispatch. A daemon never restarts. -/
namespace OpenTorque.Mom
open Pbs (Server Env Dispatch Attr Request)

/-- A request on its way to a daemon. -/
structure Letter where
  mom : String
  msg : Message
  deriving DecidableEq, Repr

/-- The request a dispatch sends next. -/
inductive Stage where
  | queueJob | jobScript | commit
  deriving DecidableEq, Repr

/-- A dispatch that is connected to a daemon; the script was read after connecting. -/
structure Conn where
  job : String
  node : String
  script : String
  stage : Stage := .queueJob
  deriving DecidableEq, Repr

namespace Conn

def message (k : Conn) : Message :=
  match k.stage with
  | .queueJob => .queueJob k.job
  | .jobScript => .jobScript k.job k.script
  | .commit => .commit k.job

def letter (k : Conn) : Letter := ⟨k.node, k.message⟩

/-- The connection after a positive reply; after that to `Commit` the dispatch is done. -/
def advance (k : Conn) : Option Conn :=
  match k.stage with
  | .queueJob => some { k with stage := .jobScript }
  | .jobScript => some { k with stage := .commit }
  | .commit => none

end Conn

structure Obituary where
  remote : String
  privileged : Bool
  job : String
  status : Int
  attrs : List Attr
  deriving DecidableEq, Repr

def Obituary.request (o : Obituary) : Request :=
  .jobObit o.remote o.privileged o.job o.status o.attrs

structure Cluster where
  server : Server
  moms : String → Daemon := fun _ => {}
  conns : List Conn := []
  /-- Requests for whose reply nobody waits. -/
  mail : List Letter := []
  /-- Obituaries for whose reply nobody waits. -/
  obits : List Obituary := []

/-- How one request of a dispatch goes: answered in time, handled with the reply lost, or
given up while it may still arrive. -/
inductive Outcome where
  | answered | replyLost | abandoned
  deriving DecidableEq, Repr

/-- How `SendJobObit` goes. A connection that fails leaves the obituary `lost`. -/
inductive Delivery where
  | handled (env : Env) | late | lost

inductive Event where
  | server (env : Env) (step : Pbs.Step)
  | connect (job node : String)
  | unreachable (env : Env) (d : Dispatch)
  | exchange (env : Env) (k : Conn) (detached : Bool) (launch : Launch) (outcome : Outcome)
  | deliver (letter : Letter) (launch : Launch)
  | drop (letter : Letter)
  | exit (mom : String) (sid : Nat) (code : Int)
  | poll (mom id : String) (usage : List (String × String)) (remote : String) (privileged : Bool)
      (delivery : Delivery)
  | obituary (env : Env) (o : Obituary)

/-- `FormatResourceUsed` as `SendJobObit` writes it. -/
def usedAttrs (usage : List (String × String)) : List Attr :=
  usage.map fun (resc, value) => { name := "resources_used", resc, hasResc := true, value, op := 1 }

namespace Cluster

def Unconnected (c : Cluster) (job node : String) : Prop :=
  c.conns.countP (fun k => k.job = job ∧ k.node = node) <
    c.server.dispatches.countP fun d => d.job = job ∧ d.node = node

instance (c : Cluster) (job node : String) : Decidable (c.Unconnected job node) :=
  inferInstanceAs (Decidable (_ < _))

/-- The requests a step of the server sends and does not wait for. -/
def sends (s : Server) (env : Env) : Pbs.Step → List Letter
  | .request r => (s.handle env r).sent.map fun d => ⟨d.host, .deleteJob d.job⟩
  | _ => []

def Spontaneous : Pbs.Step → Prop
  | .dispatchDone .. | .dispatchFailed .. => False
  | _ => True

instance : DecidablePred Spontaneous := fun step => by
  unfold Spontaneous
  split <;> infer_instance

def tell (c : Cluster) (launch : Launch) (letter : Letter) : Cluster :=
  { c with
    moms := Function.update c.moms letter.mom ((c.moms letter.mom).handle launch letter.msg).1 }

/-- `undoJobDispatch` on a connection that is given up. -/
def undo (c : Cluster) (env : Env) (k : Conn) (d : Dispatch) : Cluster :=
  { c with server := c.server.dispatchFailed env d, conns := c.conns.erase k }

/-- One request of a dispatch, with its reply. -/
def exchange (c : Cluster) (env : Env) (k : Conn) (d : Dispatch) (launch : Launch) : Outcome → Cluster
  | .abandoned => { c.undo env k d with mail := c.mail ++ [k.letter] }
  | .replyLost => (c.tell launch k.letter).undo env k d
  | .answered =>
    let told := c.tell launch k.letter
    match ((c.moms k.node).handle launch k.message).2, k.advance with
    | none, _ => told.undo env k d
    | some _, some k' => { told with conns := k' :: c.conns.erase k }
    | some text, none =>
      { told with server := c.server.dispatchDone d text, conns := c.conns.erase k }

/-- The obituary of the job if `pollJobs` finds that its process has ended. -/
def ending (c : Cluster) (mom id : String) : Option (Job × Int) := do
  let j ← (c.moms mom).job id
  return (j, ← j.exited)

/-- `processExitedJob`: whatever becomes of the obituary, the job leaves the table. -/
def processExited (c : Cluster) (mom : String) (o : Obituary) (delivery : Delivery) : Cluster :=
  let removed := { c with moms := Function.update c.moms mom ((c.moms mom).removeJob o.job) }
  match delivery with
  | .handled env => { removed with server := c.server.step env (.request o.request) }
  | .late => { removed with obits := c.obits ++ [o] }
  | .lost => removed

/-- One event; an event that cannot happen leaves the cluster as it is. -/
def next (c : Cluster) : Event → Cluster
  | .server env step =>
    if Spontaneous step then
      { c with server := c.server.step env step, mail := c.mail ++ sends c.server env step }
    else c
  | .connect job node =>
    if c.Unconnected job node then
      let script := ((c.server.jobMgr.object job).map (·.script)).getD ""
      { c with conns := { job, node, script } :: c.conns }
    else c
  | .unreachable env d =>
    if c.Unconnected d.job d.node then { c with server := c.server.step env (.dispatchFailed d) } else c
  | .exchange env k detached launch outcome =>
    let d : Dispatch := ⟨k.job, k.node, detached⟩
    if k ∈ c.conns ∧ d ∈ c.server.dispatches then c.exchange env k d launch outcome else c
  | .deliver letter launch =>
    if letter ∈ c.mail then
      { c.tell launch letter with mail := c.mail.erase letter }
    else c
  | .drop letter => { c with mail := c.mail.erase letter }
  | .exit mom sid code => { c with moms := Function.update c.moms mom ((c.moms mom).finish sid code) }
  | .poll mom id usage remote privileged delivery =>
    match c.ending mom id with
    | none => c
    | some (j, _) =>
      c.processExited mom ⟨remote, privileged, id, j.exitStatus, usedAttrs usage⟩ delivery
  | .obituary env o =>
    if o ∈ c.obits then
      { c with server := c.server.step env (.request o.request), obits := c.obits.erase o }
    else c

end Cluster

end OpenTorque.Mom
