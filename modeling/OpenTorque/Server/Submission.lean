import OpenTorque.Core.CountLoop
import OpenTorque.Server.Admission

/-! Job submission: `QueueJob`, `JobScript`, `Commit` and the expansion of job arrays. -/
namespace OpenTorque.Pbs

/-- The attribute that sets a text of the job. -/
def JobText.attr : JobText → String
  | name => "Job_Name" | server => "server" | hashName => "hashname"
  | stdoutPath => "Output_Path" | stderrPath => "Error_Path" | joinPath => "Join_Path"
  | keepFiles => "Keep_Files" | checkpoint => "Checkpoint" | shell => "Shell_Path_List"
  | account => "Account_Name" | mailPoints => "Mail_Points" | mailUsers => "Mail_Users"
  | rerunnable => "Rerunable" | userList => "User_List" | stageinList => "stagein"
  | stageoutList => "stageout" | groupList => "group_list" | initWorkDir => "init_work_dir"
  | rootDir => "init_root_dir" | euser => "euser" | egroup => "egroup"
  | faultTolerant => "fault_tolerant" | jobRadix => "job_radix" | reqVersion => "request_version"

def JobText.all : List JobText :=
  [name, server, hashName, stdoutPath, stderrPath, joinPath, keepFiles, checkpoint, shell,
    account, mailPoints, mailUsers, rerunnable, userList, stageinList, stageoutList, groupList,
    initWorkDir, rootDir, euser, egroup, faultTolerant, jobRadix, reqVersion]

namespace Job

def holds (value : String) : Bool := value ≠ "" && value ≠ "n"

def setHoldTypes (j : Job) (now : Time) (value : String) : Job :=
  if holds value then (j.setHold value).setState now .held else j.setHold value

def setExecutionTime (j : Job) (now : Time) (value : String) : Job :=
  match parseInt value with
  | none => j
  | some ts =>
    let j := { j with executionTime := Time.ofUnix ts }
    if now < j.executionTime then j.setState now .waiting else j

def setVariables (j : Job) (value : String) : Job :=
  let pairs := (Text.split ',' value).filterMap (Text.cutKey '=')
  { j with variableList := pairs.foldl (fun m (k, v) => m.insert k v) j.variableList }

/-- One attribute of `applyJobAttrs` that is not a plain text. -/
def applySpecial (j : Job) (now : Time) (a : Attr) : Job :=
  match a.name with
  | "Job_Owner" => { j with owner := a.value }
  | "queue" => { j with queue := a.value }
  | "Priority" => { j with priority := scanInto j.priority a.value }
  | "Hold_Types" => j.setHoldTypes now a.value
  | "Execution_Time" => j.setExecutionTime now a.value
  | "depend" => { j with dependList := a.value }
  | "job_array_request" => { j with jobArrayReq := a.value }
  | "comment" => { j with comment := a.value }
  | "exec_host" => { j with execHost := a.value }
  | "exec_port" => { j with execPort := scanInto j.execPort a.value }
  | "start_time" => { j with startTime := ((parseInt a.value).map Time.ofUnix).getD j.startTime }
  | "Resource_List" =>
    if a.hasResc then { j with resourceReq := j.resourceReq.insert a.resc a.value } else j
  | "resources_used" =>
    if a.hasResc then { j with resourceUsed := j.resourceUsed.insert a.resc a.value } else j
  | "Variable_List" => j.setVariables a.value
  | name => { j with attrs := j.attrs.insert name a.value }

def applyAttr (now : Time) (j : Job) (a : Attr) : Job :=
  match JobText.all.find? (·.attr = a.name) with
  | some field => j.setText field a.value
  | none => j.applySpecial now a

/-- The defaults at the end of `applyJobAttrs`. -/
def deriveDefaults (j : Job) (id : String) : Job :=
  let user := ((Text.cutKey '@' j.owner).map (·.1)).getD ""
  (j.fillText .euser user).fillText .hashName id

def applyJobAttrs (j : Job) (id : String) (now : Time) (attrs : List Attr) : Job :=
  (attrs.foldl (applyAttr now) j).deriveDefaults id

def setDefaultOutputPaths (j : Job) (id hostname : String) : Job :=
  let seq := ((Text.cutKey '.' id).map (·.1)).getD id
  let home := (j.variableList.lookup "PBS_O_HOME").getD ""
  let workdir := (j.variableList.lookup "PBS_O_WORKDIR").getD ""
  let dir := if home ≠ "" then home else if workdir ≠ "" then workdir else "/tmp"
  let path (mark : String) := hostname ++ ":" ++ Text.joinPath dir (j.text .name ++ mark ++ seq)
  (j.fillText .stdoutPath (path ".o")).fillText .stderrPath (path ".e")

/-- The state a committed job is left in. -/
def committedState (j : Job) (now : Time) : JobState :=
  if holds j.holdTypes then .held
  else if !Time.isZero j.executionTime && now < j.executionTime then .waiting
  else .queued

end Job

/-- The three forms an item of an array specification is tried in. -/
def parseArrayItem (item : String) : Option (Int × Int × Int) :=
  match scanVerb item.toList with
  | none => none
  | some (lo, '-' :: rest) =>
    match scanVerb rest with
    | none => some (lo, lo, 1)
    | some (hi, ':' :: rest) =>
      match scanVerb rest with
      | some (step, _) => some (lo, hi, step)
      | none => some (lo, hi, 1)
    | some (hi, _) => some (lo, hi, 1)
  | some (lo, _) => some (lo, lo, 1)

/-- The loop of `addRange`; `none` is a loop that does not end. -/
def addRange (lo hi step : Int) : Option (List Int) :=
  countLoop (min lo hi) (max lo hi) (if step ≤ 0 then 1 else step)

/-- What `parseArraySpec` does with a specification. -/
inductive ArraySpec where
  | indices (values : List Int)
  | invalid (item : String)
  | endless
  deriving DecidableEq, Repr

/-- The loop of `parseArraySpec` over the items. -/
def readArrayItems : List String → List Int → ArraySpec
  | [], values => .indices (values.eraseDups.insertionSort (· ≤ ·))
  | item :: items, values =>
    let item := Text.trimSpace item
    if item = "" then readArrayItems items values
    else
      match parseArrayItem item with
      | none => .invalid item
      | some (lo, hi, step) =>
        match addRange lo hi step with
        | none => .endless
        | some range => readArrayItems items (values ++ range)

def parseArraySpec (spec : String) : ArraySpec := readArrayItems (Text.split ',' spec) []

def arrayTaskID (id server : String) (index : Int) : String :=
  ((Text.cutKey '.' id).map (·.1)).getD id ++ "[" ++ itoa index ++ "]." ++ server

namespace Server

/-- The state a committed job ends in, its queue's counter and its document. -/
def enterQueue (s : Server) (env : Env) (id : String) (j : Job) : Server :=
  let state := j.committedState env.now
  let s := s.putJob id j
  let s := if state = .queued then s else s.updateJobState env id state
  let j := if state = .queued then j else j.setState env.now state
  (s.onQueue j.queue (·.incrJobCount .queued)).saveJob id j

/-- `commitJobInstance` on a job that is in the manager. -/
def commitJobInstance (s : Server) (env : Env) (id owner : String) :
    Server × Except String Unit :=
  match s.jobMgr.jobs.lookup id with
  | none => (s, .ok ())
  | some j =>
    let j := j.setDefaultOutputPaths id env.hostname
    let s := (s.putJob id j).updateJobState env id .queued
    let j := j.setState env.now .queued
    match s.finalizeRoute id j owner with
    | .error reason => (s, .error reason)
    | .ok dest => (s.enterQueue env id (j.setQueue dest), .ok ())

def addTask (env : Env) (master : String) (j : Job) (s : Server) (index : Int) : Server :=
  let id := arrayTaskID master s.cfg.serverName index
  let task := j.cloneForArray index s.cfg.serverName env.now
  (s.onJobs (·.addJob id task)).onStore (·.saveJobScript id j.script)

/-- `RemoveJob` together with the removal of the script file. -/
def discard (s : Server) (id : String) : Server := (s.removeJob id).onStore (·.removeScriptFile id)

/-- Commit the tasks in order; the first that is rejected ends the loop. -/
def commitTasks (env : Env) (owner : String) : Server → List String → Server × Except String Unit
  | s, [] => (s, .ok ())
  | s, id :: ids =>
    match s.commitJobInstance env id owner with
    | (s, .error reason) => (s, .error reason)
    | (s, .ok ()) => commitTasks env owner s ids

/-- What `processJobArray` did with a job. -/
inductive ArrayOutcome where
  | single
  | expanded
  | rejected (reason : String)
  | endless
  deriving DecidableEq, Repr

def processJobArray (s : Server) (env : Env) (id : String) (j : Job) (owner : String) :
    Server × ArrayOutcome :=
  if Text.trimSpace j.jobArrayReq = "" then (s, .single)
  else
    match parseArraySpec j.jobArrayReq with
    | .endless => (s, .endless)
    | .invalid item => (s, .rejected ("invalid array spec \"" ++ item ++ "\""))
    | .indices [] => (s, .single)
    | .indices values =>
      let tasks := values.map (arrayTaskID id s.cfg.serverName)
      match commitTasks env owner (values.foldl (addTask env id j) s) tasks with
      | (s, .error reason) => (tasks.foldl discard s, .rejected reason)
      | (s, .ok ()) => (s.discard id, .expanded)

/-- The part `Commit` and the second form of `JobScript` share: `given` is the client's
id, `id` the key of the job it resolved to. -/
def commit (s : Server) (env : Env) (given id : String) (j : Job) (reply : Reply) : Handled :=
  match s.processJobArray env id j j.owner with
  | (s, .endless) => s.hang
  | (s, .rejected _) => (s.discard given).reject pbsePerm
  | (s, .expanded) => s.answer reply
  | (s, .single) =>
    match s.commitJobInstance env id j.owner with
    | (s, .error _) => (s.discard given).reject pbsePerm
    | (s, .ok ()) => s.answer reply

def handleCommit (s : Server) (env : Env) (given : String) : Handled :=
  match s.getJob env given with
  | none => s.reject pbseUnkjobid
  | some (id, j) => s.commit env given id j (.jobID replyChoiceCommit given)

def handleJobScript (s : Server) (env : Env) (given data : String) (autoCommit : Bool) : Handled :=
  match s.getJob env given with
  | none => s.reject pbseUnkjobid
  | some (id, j) =>
    let j := j.setScript data
    let s := (s.putJob id j).onStore (·.saveJobScript given data)
    if autoCommit then s.commit env given id j .ok else s.accept

def handleRdytoCommit (s : Server) (given : String) : Handled :=
  s.answer (.jobID replyChoiceRdytoCom given)

/-- The job `handleQueueJob` builds from a request. -/
def submittedJob (s : Server) (env : Env) (user queue : String) (attrs : List Attr) : Job :=
  let j := (Job.newJob queue s.cfg.serverName env.now).setOwner user
  let j := j.applyJobAttrs s.jobMgr.formatJobID env.now attrs
  if j.owner = "" then j.setOwner user else j

def handleQueueJob (s : Server) (env : Env) (user dest : String) (attrs : List Attr) : Handled :=
  let target := if dest = "" then
      s.queueMgr.defaultQueue (env.order .executionQueue) (env.order .anyQueue)
    else some dest
  match target with
  | none => s.reject pbseQueNoDeflt
  | some queue =>
    if queue ∉ s.queueMgr then s.reject pbseUnkQue
    else
      let id := s.jobMgr.formatJobID
      let j := s.submittedJob env user queue attrs
      let s := s.onJobs (·.advance)
      if !(s.enforceSubmitLimits user).isOk then s.reject pbsePerm
      else if !s.queueAllowsSubmitHost queue j then s.reject pbsePerm
      else (s.onJobs (·.addJob id j)).answer (.jobID replyChoiceQueue id)

end Server

end OpenTorque.Pbs
