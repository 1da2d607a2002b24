import OpenTorque.Server.State

/-! Queue routing, the admission gate of a queue and the limits of the server. -/
namespace OpenTorque.Pbs

def extractUser (s : String) : String := Text.before '@' s

def aclContains (aclList user : String) : Bool :=
  (Text.split ',' aclList).any fun entry =>
    let entry := Text.trimSpace entry
    entry ≠ "" && (entry = user || extractUser entry = user)

def submitHostOf (j : Job) : String :=
  match (j.variableList.lookup "PBS_O_HOST").getD "" with
  | "" => ((Text.cut '@' j.owner).map (·.2)).getD ""
  | host => host

def parseWalltimeSec (s : String) : Int :=
  match (Text.split ':' s).map parseIntOrZero with
  | [h, m, sec] => wrap64 (h * 3600 + m * 60 + sec)
  | [m, sec] => wrap64 (m * 60 + sec)
  | _ => parseIntOrZero s

def memSuffixes : List (String × Int) :=
  [("kb", 1), ("mb", 1024), ("gb", 1024 * 1024), ("tb", 1024 * 1024 * 1024)]

def parseMemKB (s : String) : Int :=
  let s := Text.trimSpace (Text.toLower s)
  match memSuffixes.findSome? fun (suffix, mult) =>
      (Text.beforeSuffix suffix s).map (·, mult) with
  | some (number, mult) => wrap64 (parseIntOrZero number * mult)
  | none => parseIntOrZero s

/-- `rescValue`, which also reads the request of the job. -/
def rescValue (name v : String) : Int :=
  match name with
  | "ncpus" => parseIntOrZero v
  | "walltime" => parseWalltimeSec v
  | "mem" => parseMemKB v
  | _ => -1

/-- The test of one resource in `checkResourceInterval`. -/
def checkResource (q : Queue) (j : Job) (id name : String) : Except String Unit :=
  let minStr := ((q.resource .min).lookup name).getD ""
  let maxStr := ((q.resource .max).lookup name).getD ""
  let req := rescValue name (j.resource name)
  if j.resource name = "" then .ok ()
  else if minStr ≠ "" ∧ req < rescValue name minStr then
    .error ("job " ++ id ++ " below resources_min " ++ name ++ " (" ++ minStr ++ ")")
  else if maxStr ≠ "" ∧ 0 ≤ rescValue name maxStr ∧ rescValue name maxStr < req then
    .error ("job " ++ id ++ " exceeds resources_max " ++ name ++ " (" ++ maxStr ++ ")")
  else .ok ()

def checkResourceInterval (q : Queue) (j : Job) (id : String) : Except String Unit := do
  checkResource q j id "ncpus"
  checkResource q j id "walltime"
  checkResource q j id "mem"

def jobTypes (j : Job) : List String :=
  ["batch"] ++ (if j.interactive then ["interactive"] else []) ++
    (if Text.equalFold (Text.trimSpace (j.text .rerunnable)) "y" then ["rerunable"] else []) ++
    (if j.jobArrayReq ≠ "" then ["job_array"] else [])

/-- Reject with a reason unless a condition holds. -/
def require (condition : Bool) (reason : String) : Except String Unit :=
  if condition then .ok () else .error reason

@[simp] theorem require_isOk (condition : Bool) (reason : String) :
    (require condition reason).isOk = condition := by
  cases condition <;> rfl

@[simp] theorem isOk_require_bind (condition : Bool) (reason : String) (rest : Unit → Except String α) :
    (require condition reason >>= rest).isOk = (condition && (rest ()).isOk) := by
  cases condition <;> rfl

namespace Queue

/-- Whether an enabled list of a queue lets an entry pass. -/
def allows (q : Queue) (gate : QueueFlag) (list : QueueList) (entry : String) : Bool :=
  !q.flag gate || q.list list = [] || aclContains (Text.join "," (q.list list)) entry

/-- Whether a limit that is set has been reached. -/
def reached (q : Queue) (limit : QueueNumber) (count : Nat) : Bool :=
  0 < q.number limit && q.number limit ≤ count

def limitText (q : Queue) (limit : QueueNumber) : String :=
  limit.attr ++ " (" ++ itoa (q.number limit) ++ ")"

/-- The tests of the gate in their order. -/
def admitToQueue (q : Queue) (jm : JobManager) (name : String) (id : String) (j : Job) (user : String)
    (fromRoute : Bool) : Except String Unit := do
  let waiting := jm.countByStateInQueue name [.queued, .provisioning]
    + jm.countByStateInQueue name [.held] + jm.countByStateInQueue name [.waiting]
  let disallowed := (jobTypes j).find? (· ∈ q.list .disallowedTypes)
  let host := submitHostOf j
  require (q.flag .enabled) ("queue " ++ name ++ " is disabled")
  require (q.flag .started) ("queue " ++ name ++ " is not started")
  require (!q.fromRouteOnly || fromRoute) ("queue " ++ name ++ " only accepts routed jobs")
  require disallowed.isNone ("queue " ++ name ++ " disallows job type " ++ disallowed.getD "")
  require (!q.reached .maxJobs waiting) ("queue " ++ name ++ " is at " ++ q.limitText .maxJobs)
  require (!q.reached .maxRun (jm.countByStateInQueue name [.running]))
    ("queue " ++ name ++ " is at " ++ q.limitText .maxRun)
  require (!q.reached .maxUserJobs (jm.countQueuedByOwnerInQueue name user))
    ("queue " ++ name ++ ": user " ++ user ++ " at " ++ q.limitText .maxUserJobs)
  require (!q.reached .maxUserRun (jm.countRunningByOwnerInQueue name user))
    ("queue " ++ name ++ ": user " ++ user ++ " at " ++ q.limitText .maxUserRun)
  require (q.allows .aclUserEnabled .aclUsers (extractUser user))
    ("queue " ++ name ++ ": user " ++ user ++ " not in acl_users")
  require (q.allows .aclGroupEnabled .aclGroups (j.text .egroup))
    ("queue " ++ name ++ ": group " ++ j.text .egroup ++ " not in acl_groups")
  require (!q.flag .aclHostEnabled || q.list .aclHosts = []
      || host ≠ "" && q.allows .aclHostEnabled .aclHosts host)
    ("queue " ++ name ++ ": host " ++ host ++ " not in acl_hosts")
  checkResourceInterval q j id

end Queue

namespace Server

/-- `admitToQueue` for a queue given by its name. -/
def admits (s : Server) (name id : String) (j : Job) (user : String) (fromRoute : Bool) :
    Except String Unit :=
  match s.queueMgr.lookup name with
  | none => .error ("queue " ++ name ++ " not found")
  | some q => q.admitToQueue s.jobMgr name id j user fromRoute

/-- `routeJob`: the destination and whether the job was routed there. -/
def routeJob (s : Server) (id : String) (j : Job) (user : String) :
    Except String (String × Bool) :=
  match s.queueMgr.lookup j.queue with
  | none => .ok (j.queue, false)
  | some q =>
    if q.type ≠ .route then .ok (j.queue, false)
    else if q.list .routeDestin = [] then
      .error ("route queue " ++ j.queue ++ " has no route_destinations")
    else
      match (q.list .routeDestin).find? fun dest => (s.admits dest id j user true).isOk with
      | some dest => .ok (dest, true)
      | none => .error ("no route destination accepted job " ++ id)

/-- `finalizeRoute`: the queue the job enters. -/
def finalizeRoute (s : Server) (id : String) (j : Job) (user : String) :
    Except String String := do
  let (dest, routed) ← s.routeJob id j user
  if routed then pure dest
  else do
    s.admits dest id j user false
    pure dest

def queueAllowsSubmitHost (s : Server) (queue : String) (j : Job) : Bool :=
  match s.queueMgr.lookup queue with
  | none => true
  | some q =>
    !q.flag .aclHostEnabled || q.list .aclHosts = [] ||
      (submitHostOf j ≠ "" &&
        (q.list .aclHosts).any fun h => Text.equalFold (Text.trimSpace h) (submitHostOf j))

def enforceSubmitLimits (s : Server) (user : String) : Except String Unit := do
  require (!s.cfg.flag "acl_user_enable" || s.cfg.text "acl_users" = ""
      || aclContains (s.cfg.text "acl_users") (extractUser user))
    ("user " ++ user ++ " not in acl_users")
  let limit := s.cfg.number "max_user_queuable"
  require (limit ≤ 0 || (s.jobMgr.countJobsByOwner user : Int) < limit)
    ("user " ++ user ++ " exceeds max_user_queuable (" ++ itoa limit ++ ")")

/-- One limit of `enforceRunLimits`. -/
def belowLimit (s : Server) (limit : String) (count : Nat) : Bool :=
  s.cfg.number limit ≤ 0 || (count : Int) < s.cfg.number limit

def enforceRunLimits (s : Server) (j : Job) : Bool :=
  s.belowLimit "max_running" (s.jobMgr.countByState .running) &&
    s.belowLimit "max_user_run" (s.jobMgr.countRunningByOwner j.owner) &&
    (j.text .egroup = "" ||
      s.belowLimit "max_group_run" (s.jobMgr.countRunningByGroup (j.text .egroup)))

end Server

end OpenTorque.Pbs
