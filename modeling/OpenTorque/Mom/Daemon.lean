import OpenTorque.Core.Assoc

/-! The execution daemon: its job table, the processes it has started and the four
requests the server sends it. Files, staging and the prologue appear only through
whether they succeed; a process ends at any time and with any status. -/
namespace OpenTorque.Mom

inductive State where
  | queued | running | exiting
  deriving DecidableEq, Repr

/-- A started process of a job; `exit` is its status once it has been waited for. -/
structure Task where
  sid : Nat
  exit : Option Int := none
  deriving DecidableEq, Repr

structure Job where
  state : State := .queued
  exitStatus : Int := 0
  script : String := ""
  scriptFile : Bool := false
  tasks : List Task := []
  deriving DecidableEq, Repr

namespace Job

/-- The first part of `StartJob`: a script that has been sent becomes a file. -/
def writeScript (j : Job) : Job := { j with scriptFile := j.scriptFile || j.script ≠ "" }

/-- The rest of `StartJob` on the job object. -/
def start (j : Job) (sid : Nat) : Job :=
  { j with state := .running, tasks := j.tasks ++ [{ sid }] }

/-- `waitForCompletion` on the job object. -/
def finish (j : Job) (sid : Nat) (code : Int) : Job :=
  { j with
    state := .exiting
    exitStatus := code
    tasks := j.tasks.map fun t => if t.sid = sid then { t with exit := some code } else t }

/-- The status of the process that `pollJobs` looks at, once it has ended. -/
def exited (j : Job) : Option Int :=
  if j.state = .queued then none else j.tasks.head?.bind (·.exit)

end Job

/-- A process that has not been waited for; a killed one no longer runs. -/
structure Process where
  sid : Nat
  job : String
  alive : Bool := true
  deriving DecidableEq, Repr

structure Daemon where
  jobs : Assoc Job := ∅
  processes : List Process := []
  sessionFiles : Assoc Nat := ∅
  nextSid : Nat := 1

/-- The requests of `dispatchJobToMOM` and `sendDeleteToMOM`. -/
inductive Message where
  | queueJob (id : String)
  | jobScript (id script : String)
  | commit (id : String)
  | deleteJob (id : String)
  deriving DecidableEq, Repr

/-- Whether what `handleCommit` does outside the daemon succeeds: staging and the
prologue, writing the script, then the output files and the start of the process. -/
structure Launch where
  prepared : Bool := true
  written : Bool := true
  started : Bool := true
  deriving DecidableEq, Repr

namespace Daemon

abbrev putJob (m : Daemon) (id : String) (j : Job) : Daemon := { m with jobs := m.jobs.insert id j }

def Runs (m : Daemon) (id : String) : Prop := ∃ p ∈ m.processes, p.job = id ∧ p.alive = true

instance (m : Daemon) (id : String) : Decidable (m.Runs id) :=
  inferInstanceAs (Decidable (∃ p ∈ m.processes, _))

/-- `SIGKILL` to a session; its process is still to be waited for. -/
def killSession (m : Daemon) (sid : Nat) : Daemon :=
  { m with processes := m.processes.map fun p => if p.sid = sid then { p with alive := false } else p }

def killStaleSession (m : Daemon) (id : String) : Daemon :=
  match m.sessionFiles.lookup id with
  | none => m
  | some sid => { m.killSession sid with sessionFiles := m.sessionFiles.erase id }

def startJob (m : Daemon) (id : String) (j : Job) : Daemon :=
  { m.putJob id (j.start m.nextSid) with
    processes := ⟨m.nextSid, id, true⟩ :: m.processes
    sessionFiles := m.sessionFiles.insert id m.nextSid
    nextSid := m.nextSid + 1 }

/-- The new state and the text of a positive reply. -/
abbrev Answer := Daemon × Option String

def handleQueueJob (m : Daemon) (id : String) : Answer :=
  if id ∈ m.jobs then (m, none) else (m.putJob id {}, some id)

def handleJobScript (m : Daemon) (id script : String) : Answer :=
  match m.jobs.lookup id with
  | none => (m, some "")
  | some j => (m.putJob id { j with script }, some "")

def handleCommit (m : Daemon) (launch : Launch) (id : String) : Answer :=
  match m.jobs.lookup id with
  | none => (m, none)
  | some j =>
    if !launch.prepared then (m, none)
    else
      let reaped := m.killStaleSession id
      if j.script ≠ "" ∧ !launch.written then (reaped, none)
      -- without a script, now or before, there is no file to run
      else if !j.writeScript.scriptFile || !launch.started then (reaped.putJob id j.writeScript, none)
      else (reaped.startJob id j.writeScript, some (toString m.nextSid))

/-- The signal to the process takes effect, if it does, as the end of the process. -/
def handleDeleteJob (m : Daemon) (id : String) : Answer :=
  match m.jobs.lookup id with
  | none => (m, none)
  | some j => (m.putJob id { j with state := .exiting, exitStatus := -1 }, some "")

def handle (m : Daemon) (launch : Launch) : Message → Answer
  | .queueJob id => m.handleQueueJob id
  | .jobScript id script => m.handleJobScript id script
  | .commit id => m.handleCommit launch id
  | .deleteJob id => m.handleDeleteJob id

/-- `waitForCompletion` of the process of a session. It writes to its own job object,
which may have left the table. -/
def finish (m : Daemon) (sid : Nat) (code : Int) : Daemon :=
  match m.processes.find? (·.sid = sid) with
  | none => m
  | some p =>
    let reaped := { m with processes := m.processes.erase p }
    match m.jobs.lookup p.job with
    | none => reaped
    | some j => if j.tasks.any (·.sid = sid) then reaped.putJob p.job (j.finish sid code) else reaped

/-- The end of `processExitedJob`: `CleanupJob` and `RemoveJob`. -/
def removeJob (m : Daemon) (id : String) : Daemon :=
  { m with jobs := m.jobs.erase id, sessionFiles := m.sessionFiles.erase id }

def job (m : Daemon) (id : String) : Option Job := m.jobs.lookup id

/-- What a request can do to the job table and the processes. -/
inductive Handles (m : Daemon) : Message → Answer → Prop where
  | refused : Handles m msg (m, none)
  | queued {id : String} (free : m.job id = none) :
      Handles m (.queueJob id) (m.putJob id {}, some id)
  | noted {id script : String} : Handles m (.jobScript id script) (m, some "")
  | scripted {id script : String} (found : m.job id = some j) :
      Handles m (.jobScript id script) (m.putJob id { j with script }, some "")
  | reaped {id : String} : Handles m (.commit id) (m.killStaleSession id, none)
  | written {id : String} (found : m.job id = some j) :
      Handles m (.commit id) ((m.killStaleSession id).putJob id j.writeScript, none)
  | started {id : String} (found : m.job id = some j) :
      Handles m (.commit id)
        ((m.killStaleSession id).startJob id j.writeScript, some (toString m.nextSid))
  | marked {id : String} (found : m.job id = some j) :
      Handles m (.deleteJob id)
        (m.putJob id { j with state := .exiting, exitStatus := -1 }, some "")

theorem handle_handles (m : Daemon) (launch : Launch) (msg : Message) :
    m.Handles msg (m.handle launch msg) := by
  cases msg with
  | queueJob id =>
    simp only [handle, handleQueueJob]
    split
    · exact .refused
    case isFalse free => exact .queued (AList.lookup_eq_none.mpr free)
  | jobScript id script =>
    simp only [handle, handleJobScript]
    split
    · exact .noted
    case h_2 found => exact .scripted found
  | commit id =>
    simp only [handle, handleCommit]
    split
    · exact .refused
    case h_2 found =>
      split_ifs
      · exact .refused
      · exact .reaped
      · exact .written found
      · exact .started found
  | deleteJob id =>
    simp only [handle, handleDeleteJob]
    split
    · exact .refused
    case h_2 found => exact .marked found

@[simp] theorem job_putJob (m : Daemon) (id : String) (j : Job) :
    (m.putJob id j).job = Function.update m.job id (some j) := by
  funext x
  simp only [job, Assoc.lookup_insert_ite, Function.update_apply]

@[simp] theorem job_killStaleSession (m : Daemon) (id : String) : (m.killStaleSession id).job = m.job := by
  unfold killStaleSession
  split <;> rfl

@[simp] theorem job_startJob (m : Daemon) (id : String) (j : Job) :
    (m.startJob id j).job = Function.update m.job id (some (j.start m.nextSid)) :=
  job_putJob m id _

@[simp] theorem job_removeJob (m : Daemon) (id : String) :
    (m.removeJob id).job = Function.update m.job id none := by
  funext x
  simp only [job, removeJob, Assoc.lookup_erase_ite, Function.update_apply]

theorem job_finish (m : Daemon) (sid : Nat) (code : Int) :
    (m.finish sid code).job = m.job ∨
      ∃ id j, m.job id = some j ∧ (∃ t ∈ j.tasks, t.sid = sid) ∧
        (m.finish sid code).job = Function.update m.job id (some (j.finish sid code)) := by
  unfold finish
  split
  · exact .inl rfl
  case h_2 p _ =>
    simp only
    split
    · exact .inl rfl
    case h_2 j found =>
      split_ifs with own
      · exact .inr ⟨p.job, j, found, by simpa using own, job_putJob _ _ _⟩
      · exact .inl rfl

end Daemon

end OpenTorque.Mom
