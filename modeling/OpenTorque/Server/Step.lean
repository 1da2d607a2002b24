import OpenTorque.Server.Status

/-! One atomic step of the server: a client request, a message of a MOM, the end of a
dispatch or a round of a background task. -/
namespace OpenTorque.Pbs

inductive Request where
  | queueJob (user dest : String) (attrs : List Attr)
  | jobScript (id data : String) (autoCommit : Bool)
  | rdytoCommit (id : String)
  | commit (id : String)
  | deleteJob (id : String)
  | holdJob (id : String)
  | releaseJob (id : String)
  | modifyJob (id : String) (attrs : List Attr)
  | moveJob (id dest : String)
  | runJob (id dest : String)
  | rerunJob (id : String)
  | orderJob (id₁ id₂ : String)
  | lookupJob (id : String)
  | locateJob (id : String)
  | selectJobs
  | checkpointJob (id : String)
  | jobObit (remote : String) (privileged : Bool) (id : String) (status : Int) (attrs : List Attr)
  | statusJob (id : String)
  | statusQueue (name : String)
  | statusNode (name : String)
  | manager (command : Server.MgrCommand)
  deriving DecidableEq, Repr

namespace Server

/-- `dispatchRequest` -/
def handle (s : Server) (env : Env) : Request → Handled
  | .queueJob user dest attrs => s.handleQueueJob env user dest attrs
  | .jobScript id data autoCommit => s.handleJobScript env id data autoCommit
  | .rdytoCommit id => s.handleRdytoCommit id
  | .commit id => s.handleCommit env id
  | .deleteJob id => s.handleDeleteJob env id
  | .holdJob id => s.handleHoldJob env id
  | .releaseJob id => s.handleReleaseJob env id
  | .modifyJob id attrs => s.handleModifyJob env id attrs
  | .moveJob id dest => s.handleMoveJob env id dest
  | .runJob id dest => s.handleRunJob env id dest
  | .rerunJob id => s.handleRerunJob env id
  | .orderJob id₁ id₂ => s.handleOrderJob env id₁ id₂
  | .lookupJob id => s.handleLookup env id
  | .locateJob id => s.handleLocateJob env id
  | .selectJobs => s.handleSelectJobs env
  | .checkpointJob id => s.handleCheckpointJob env id
  | .jobObit remote privileged id status attrs =>
    s.handleJobObit env remote privileged id status attrs
  | .statusJob id => s.handleStatusJob env id
  | .statusQueue name => s.handleStatusQueue env name
  | .statusNode name => s.handleStatusNode env name
  | .manager command => s.handleManager env command

end Server

inductive Step where
  | request (r : Request)
  | authenticate (remote user : String)
  | statusMessage (msg : StatusMessage)
  | dispatchDone (d : Dispatch) (session : String)
  | dispatchFailed (d : Dispatch)
  | checkNodes
  | promoteWaitingJobs
  | completedJobCleanup
  | reconcile (answer : String → Option (List String))

/-- One step; a dispatch ends only if it is under way. -/
def Server.step (s : Server) (env : Env) : Step → Server
  | .request r => (s.handle env r).server
  | .authenticate remote user => { s with authMap := s.authMap.insert remote user }
  | .statusMessage msg => s.handleISMessage env msg
  | .dispatchDone d session => if d ∈ s.dispatches then s.dispatchDone d session else s
  | .dispatchFailed d => if d ∈ s.dispatches then s.dispatchFailed env d else s
  | .checkNodes => s.checkNodes env
  | .promoteWaitingJobs => s.promoteWaitingJobs env
  | .completedJobCleanup => s.completedJobCleanup env
  | .reconcile answer => s.reconcileRunningJobsWithMOMs env answer

/-- Requests that come one after the other at one time. -/
def atOnce (requests : List Request) : List (Env × Step) :=
  requests.map fun r => ({ now := 1 }, .request r)

/-- The MOM of a node reports its status. -/
def reports (node : String) (items : List String) : Env × Step :=
  ({ now := 1 }, .statusMessage
    { momPort := 15002, items, peerName := node, peerIP := none, inRange := fun _ => none })

def fromEmpty (steps : List (Env × Step)) : Server :=
  steps.foldl (fun s l => s.step l.1 l.2) (Server.new "server" {})

end OpenTorque.Pbs
