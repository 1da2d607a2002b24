import Mathlib.Logic.Function.Basic
import Mathlib.Tactic.Simps.Basic
import OpenTorque.Core.Assoc
import OpenTorque.Core.Number

/-! Jobs and the job manager. A job's `ID` is the key the manager holds it under, so
the record itself does not repeat it. -/
namespace OpenTorque.Pbs

inductive JobState where
  | transit | queued | held | waiting | running | exiting | complete | provisioning
  | other (code : Int) (unnamed : code < 0 ∨ 7 < code)
  deriving DecidableEq, Repr

namespace JobState

/-- The numbers of the `JOB_STATE_*` constants. -/
def code : JobState → Int
  | transit => 0 | queued => 1 | held => 2 | waiting => 3 | running => 4 | exiting => 5
  | complete => 6 | provisioning => 7
  | other code _ => code

def ofCode (n : Int) : JobState :=
  if unnamed : n < 0 ∨ 7 < n then other n unnamed
  else
    match n with
    | 0 => transit | 1 => queued | 2 => held | 3 => waiting | 4 => running | 5 => exiting
    | 6 => complete | _ => provisioning

/-- The index of a state in a `[7]int` table of counters. -/
def slot : JobState → Option Nat
  | transit => some 0 | queued => some 1 | held => some 2 | waiting => some 3
  | running => some 4 | exiting => some 5 | complete => some 6
  | provisioning | other _ _ => none

/-- `StateName` -/
def name : JobState → String
  | transit => "T" | queued => "Q" | held => "H" | waiting => "W" | running => "R"
  | exiting => "E" | complete => "C" | provisioning => "D" | other _ _ => "?"

/-- The substate every handler pairs with a state. -/
def substate : JobState → Int
  | queued => 10 | held => 20 | waiting => 30 | running => 42 | exiting => 50 | complete => 59
  | transit | provisioning | other _ _ => 0

theorem ofCode_code (state : JobState) : ofCode state.code = state := by
  cases state with
  | other n unnamed => exact dif_pos unnamed
  | _ => rfl

end JobState

/-- A `[7]int` table of counters, one for each state up to `Complete`. -/
abbrev StateCounts := List Nat

namespace StateCounts

def zero : StateCounts := List.replicate 7 0

def incr (counts : StateCounts) (state : JobState) : StateCounts :=
  match state.slot with
  | some i => counts.modify i (· + 1)
  | none => counts

/-- The guard against underflow is the truncation of natural subtraction. -/
def decr (counts : StateCounts) (state : JobState) : StateCounts :=
  match state.slot with
  | some i => counts.modify i (· - 1)
  | none => counts

end StateCounts

/-- The attributes of a job that the server only stores, reports and passes on. -/
inductive JobText where
  | name | server | hashName | stdoutPath | stderrPath | joinPath | keepFiles | checkpoint
  | shell | account | mailPoints | mailUsers | rerunnable | userList | stageinList
  | stageoutList | groupList | initWorkDir | rootDir | euser | egroup | faultTolerant
  | jobRadix | reqVersion
  deriving DecidableEq, Repr

structure Job where
  owner : String := ""
  queue : String := ""
  state : JobState := .transit
  substate : Int := 0
  execHost : String := ""
  execPort : Int := 0
  sessionID : Int := 0
  exitStatus : Int := 0
  createTime : Time := 0
  queueTime : Time := 0
  startTime : Time := 0
  compTime : Time := 0
  mTime : Time := 0
  executionTime : Time := 0
  script : String := ""
  resourceReq : Assoc String := ∅
  resourceUsed : Assoc String := ∅
  attrs : Assoc String := ∅
  variableList : Assoc String := ∅
  priority : Int := 0
  nodeCount : Int := 0
  taskCount : Int := 0
  dependList : String := ""
  holdTypes : String := ""
  jobArrayReq : String := ""
  comment : String := ""
  provisionVM : String := ""
  provisionNode : String := ""
  interactive : Bool := false
  text : JobText → String := fun _ => ""

namespace Job

def setText (j : Job) (field : JobText) (value : String) : Job :=
  { j with text := Function.update j.text field value }

/-- Set a text that is still empty. -/
def fillText (j : Job) (field : JobText) (value : String) : Job :=
  if j.text field = "" then j.setText field value else j

def newJob (queue server : String) (now : Time) : Job :=
  { queue, createTime := now, text := Function.update (fun _ => "") .server server }

/-- `SetState`, with the substate that goes with the state. -/
def setState (j : Job) (now : Time) (state : JobState) : Job where
  __ := j
  state := state
  substate := state.substate
  mTime := now
  queueTime := if state = .queued ∧ Time.isZero j.queueTime then now else j.queueTime
  startTime := if state = .running then now else j.startTime
  compTime := if state = .complete then now else j.compTime

/-- `CloneForArray`: the submission of the master in a fresh life. -/
def cloneForArray (j : Job) (index : Int) (server : String) (now : Time) : Job where
  __ := j.setText .server server
  state := .transit
  substate := 0
  createTime := now
  queueTime := 0
  startTime := 0
  compTime := 0
  mTime := 0
  executionTime := 0
  jobArrayReq := itoa index

@[simps state execHost]
def setExec (j : Job) (host : String) (port : Int) : Job :=
  { j with execHost := host, execPort := port }

@[simps state execHost]
def setQueue (j : Job) (queue : String) : Job := { j with queue }

@[simps state execHost]
def setOwner (j : Job) (owner : String) : Job := { j with owner }

@[simps state execHost]
def setScript (j : Job) (script : String) : Job := { j with script }

@[simps state execHost]
def setComment (j : Job) (comment : String) : Job := { j with comment }

@[simps state execHost]
def setCreateTime (j : Job) (createTime : Time) : Job := { j with createTime }

@[simps state execHost]
def setHold (j : Job) (holdTypes : String) : Job := { j with holdTypes }

@[simps state execHost]
def setSession (j : Job) (sessionID : Int) : Job := { j with sessionID }

section Fields
variable (j : Job) (now : Time) (state : JobState)

@[simp] theorem setState_state : (j.setState now state).state = state := rfl
@[simp] theorem setState_execHost : (j.setState now state).execHost = j.execHost := rfl
@[simp] theorem setText_state : (j.setText field value).state = j.state := rfl
@[simp] theorem setText_execHost : (j.setText field value).execHost = j.execHost := rfl

@[simp] theorem fillText_state : (j.fillText field value).state = j.state := by
  unfold fillText; split <;> rfl

@[simp] theorem fillText_execHost : (j.fillText field value).execHost = j.execHost := by
  unfold fillText; split <;> rfl

end Fields

end Job

/-- `job.Manager`. `removed` keeps the job objects that left the manager: a dispatch
that is still under way holds a pointer to its job. -/
structure JobManager where
  serverName : String
  nextJobID : Int := 0
  jobs : Assoc Job := ∅
  stateCounts : StateCounts := .zero
  removed : Assoc Job := ∅

namespace JobManager

/-- The id `NextJobID` returns. -/
def formatJobID (m : JobManager) : String := itoa m.nextJobID ++ "." ++ m.serverName

@[simps]
def advance (m : JobManager) : JobManager := { m with nextJobID := wrap64 (m.nextJobID + 1) }

@[simps]
def setNextJobID (m : JobManager) (n : Int) : JobManager := { m with nextJobID := n }

@[simps]
def put (m : JobManager) (id : String) (j : Job) : JobManager :=
  { m with jobs := m.jobs.insert id j }

@[simps]
def recount (m : JobManager) (counts : StateCounts) : JobManager :=
  { m with stateCounts := counts }

def addJob (m : JobManager) (id : String) (j : Job) : JobManager :=
  (m.put id j).recount (m.stateCounts.incr j.state)

@[simps]
def drop (m : JobManager) (id : String) (j : Job) : JobManager :=
  { m with jobs := m.jobs.erase id, removed := m.removed.insert id j }

def removeJob (m : JobManager) (id : String) : JobManager :=
  match m.jobs.lookup id with
  | none => m
  | some j => (m.drop id j).recount (m.stateCounts.decr j.state)

def updateJobState (m : JobManager) (now : Time) (id : String) (state : JobState) : JobManager :=
  match m.jobs.lookup id with
  | none => m
  | some j =>
    (m.put id (j.setState now state)).recount ((m.stateCounts.decr j.state).incr state)

/-- Whether a stored id is the short id `id` with the server's name in any case. -/
def isShortFor (m : JobManager) (id stored : String) : Bool :=
  match Text.cut '.' stored with
  | some (number, suffix) => number = id && Text.equalFold suffix m.serverName
  | none => false

/-- The key under which `GetJob` finds the job of a client's id. -/
def resolve (m : JobManager) (order : RangeOrder) (given : String) : Option String :=
  let id := Text.trimSpace given
  let full := id ++ "." ++ m.serverName
  if id ∈ m.jobs then some id
  else if Text.contains id "." then none
  else if full ∈ m.jobs then some full
  else (m.jobs.range order).find? (m.isShortFor id)

def getJob (m : JobManager) (order : RangeOrder) (given : String) : Option (String × Job) := do
  let id ← m.resolve order given
  let j ← m.jobs.lookup id
  pure (id, j)

/-- The job object a pointer refers to, in the manager or not. -/
def object (m : JobManager) (id : String) : Option Job := m.jobs.lookup id <|> m.removed.lookup id

/-- Write through a pointer to a job object. -/
def putObject (m : JobManager) (id : String) (j : Job) : JobManager :=
  if id ∈ m.jobs then m.put id j else { m with removed := m.removed.insert id j }

/-- The number of jobs a counting loop of the manager finds. -/
def count (m : JobManager) (wanted : Job → Bool) : Nat :=
  (m.jobs.entries.filter fun entry => wanted entry.2).length

def countByState (m : JobManager) (state : JobState) : Nat := m.count (·.state = state)

def countJobsByOwner (m : JobManager) (owner : String) : Nat := m.count (·.owner = owner)

def countRunningByOwner (m : JobManager) (owner : String) : Nat :=
  m.count fun j => j.state = .running && j.owner = owner

def countRunningByGroup (m : JobManager) (group : String) : Nat :=
  m.count fun j => j.state = .running && j.text .egroup = group

def countByStateInQueue (m : JobManager) (queue : String) (states : List JobState) : Nat :=
  m.count fun j => j.queue = queue && j.state ∈ states

def countQueuedByOwnerInQueue (m : JobManager) (queue owner : String) : Nat :=
  m.count fun j => j.queue = queue && (j.state = .queued || j.state = .provisioning)
    && j.owner = owner

def countRunningByOwnerInQueue (m : JobManager) (queue owner : String) : Nat :=
  m.count fun j => j.queue = queue && j.state = .running && j.owner = owner

section Lookup
variable (m : JobManager) (now : Time) (id k : String) (j : Job) (state : JobState)

@[simp] theorem addJob_jobs : (m.addJob id j).jobs = m.jobs.insert id j := rfl

theorem updateJobState_lookup : (m.updateJobState now id state).jobs.lookup k =
    if k = id then (m.jobs.lookup id).map (·.setState now state) else m.jobs.lookup k := by
  unfold updateJobState
  cases found : m.jobs.lookup id with
  | none =>
    by_cases same : k = id
    · subst same; simp [found]
    · simp [same]
  | some j => simp [Assoc.lookup_insert_ite]

theorem removeJob_lookup : (m.removeJob id).jobs.lookup k =
    if k = id then none else m.jobs.lookup k := by
  unfold removeJob
  cases found : m.jobs.lookup id with
  | none =>
    by_cases same : k = id
    · subst same; simp [found]
    · simp [same]
  | some j => simp [Assoc.lookup_erase_ite]

@[simp] theorem mem_updateJobState : k ∈ (m.updateJobState now id state).jobs ↔ k ∈ m.jobs := by
  rw [← AList.lookup_isSome, ← AList.lookup_isSome, updateJobState_lookup]
  by_cases same : k = id
  · subst same; simp
  · simp [same]

@[simp] theorem mem_removeJob : k ∈ (m.removeJob id).jobs ↔ k ≠ id ∧ k ∈ m.jobs := by
  rw [← AList.lookup_isSome, ← AList.lookup_isSome, removeJob_lookup]
  by_cases same : k = id
  · subst same; simp
  · simp [same]

@[simp] theorem updateJobState_nextJobID :
    (m.updateJobState now id state).nextJobID = m.nextJobID := by
  unfold updateJobState; split <;> rfl

@[simp] theorem removeJob_nextJobID : (m.removeJob id).nextJobID = m.nextJobID := by
  unfold removeJob; split <;> rfl

theorem getJob_lookup (found : m.getJob order given = some (id, j)) :
    m.jobs.lookup id = some j := by
  simp only [getJob, Option.bind_eq_bind, Option.bind_eq_some_iff] at found
  obtain ⟨key, -, j', found, same⟩ := found
  cases same
  exact found

theorem getJob_key (trimmed : Text.trimSpace k = k) (present : k ∈ m.jobs)
    (found : m.getJob order k = some (id, j)) : id = k := by
  simp only [getJob, resolve, trimmed, present, if_true, Option.bind_eq_bind, Option.bind_some,
    Option.bind_eq_some_iff] at found
  obtain ⟨_, -, same⟩ := found
  cases same
  rfl

end Lookup

section Resolution
variable {m : JobManager} {order : RangeOrder} {given key : String} {j : Job}

/-- The ids that a text given for a job can stand for. -/
def StandsFor (m : JobManager) (given key : String) : Prop :=
  key = Text.trimSpace given ∨ Text.contains (Text.trimSpace given) "." = false ∧
    (key = Text.trimSpace given ++ "." ++ m.serverName ∨
      m.isShortFor (Text.trimSpace given) key = true)

instance (m : JobManager) (given key : String) : Decidable (m.StandsFor given key) :=
  inferInstanceAs (Decidable (_ ∨ _))

theorem stands_of_getJob (found : m.getJob order given = some (key, j)) : m.StandsFor given key := by
  simp only [getJob, Option.bind_eq_bind, Option.bind_eq_some_iff] at found
  obtain ⟨id, resolved, _, -, same⟩ := found
  cases same
  simp only [resolve] at resolved
  split_ifs at resolved with whole dotted full
  · exact .inl (Option.some.inj resolved).symm
  · exact .inr ⟨by simpa using dotted, .inl (Option.some.inj resolved).symm⟩
  · exact .inr ⟨by simpa using dotted, .inr (List.find?_some resolved)⟩

theorem lookup_of_getJob_none (missing : m.getJob order given = none)
    (names : m.StandsFor given key) :
    m.jobs.lookup key = none := by
  by_contra held
  obtain ⟨j, held⟩ := Option.ne_none_iff_exists'.mp held
  have present : key ∈ m.jobs := Assoc.mem_of_lookup held
  have resolved : ∃ id ∈ m.jobs, m.resolve order given = some id := by
    simp only [resolve]
    rcases names with rfl | ⟨plain, rfl | short⟩
    · exact ⟨_, present, if_pos present⟩
    · by_cases whole : Text.trimSpace given ∈ m.jobs
      · exact ⟨_, whole, if_pos whole⟩
      · exact ⟨_, present, by rw [if_neg whole, if_neg (by simp [plain]), if_pos present]⟩
    · by_cases whole : Text.trimSpace given ∈ m.jobs
      · exact ⟨_, whole, if_pos whole⟩
      by_cases full : Text.trimSpace given ++ "." ++ m.serverName ∈ m.jobs
      · exact ⟨_, full, by rw [if_neg whole, if_neg (by simp [plain]), if_pos full]⟩
      rw [if_neg whole, if_neg (by simp [plain]), if_neg full]
      have some : ((m.jobs.range order).find? (m.isShortFor (Text.trimSpace given))).isSome = true :=
        List.find?_isSome.mpr ⟨key, (Assoc.mem_range ..).mpr present, short⟩
      obtain ⟨id, first⟩ := Option.isSome_iff_exists.mp some
      exact ⟨id, (Assoc.mem_range ..).mp (List.mem_of_find?_eq_some first), first⟩
  obtain ⟨id, member, resolved⟩ := resolved
  obtain ⟨k, found⟩ := Assoc.exists_lookup member
  simp [getJob, resolved, found] at missing

end Resolution

end JobManager

end OpenTorque.Pbs
