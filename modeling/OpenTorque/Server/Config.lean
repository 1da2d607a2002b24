import OpenTorque.Server.Queue

/-! The server's configuration and its document `serverdb`. A setting is kept under
its `qmgr` name; settings of one kind are set, unset, written and read alike. -/
namespace OpenTorque.Pbs

/-- How the server treats a setting. -/
inductive SettingKind where
  | number | flag | text | list | resources
  deriving DecidableEq, Repr

structure Config where
  serverName : String
  number : String → Int
  flag : String → Bool
  text : String → String
  resources : String → Assoc String

namespace Config

/-- The settings in the order `saveServerDB` writes them. -/
def settings : List (String × SettingKind) :=
  [("default_queue", .text), ("scheduling", .flag),
    ("scheduler_iteration", .number), ("event_driven", .flag), ("sched_min_interval", .number),
    ("default_queue_depth", .number), ("sched_max_job_start", .number),
    ("max_sched_time", .number), ("defer", .flag), ("defer_batch", .flag),
    ("sched_trigger_port", .number), ("node_check_rate", .number), ("tcp_timeout", .number),
    ("keep_completed", .number), ("job_stat_rate", .number), ("poll_jobs", .flag),
    ("ping_rate", .number), ("job_start_timeout", .number), ("job_force_cancel_time", .number),
    ("job_sync_timeout", .number),
    ("log_events", .number), ("log_file_max_size", .number), ("log_file_roll_depth", .number),
    ("log_keep_days", .number), ("record_job_info", .flag), ("record_job_script", .flag),
    ("job_log_file_max_size", .number), ("job_log_file_roll_depth", .number),
    ("job_log_keep_days", .number),
    ("managers", .list), ("operators", .list), ("acl_host_enable", .flag), ("acl_hosts", .list),
    ("acl_user_enable", .flag), ("acl_users", .list), ("acl_roots", .list),
    ("acl_logic_or", .flag), ("acl_group_sloppy", .flag), ("acl_user_hosts", .list),
    ("acl_group_hosts", .list),
    ("max_running", .number), ("max_user_run", .number), ("max_group_run", .number),
    ("max_user_queuable", .number), ("resources_available", .resources),
    ("resources_default", .resources), ("resources_max", .resources),
    ("resources_cost", .resources),
    ("mail_domain", .text), ("mail_from", .text), ("no_mail_force", .flag),
    ("mail_subject_fmt", .text), ("mail_body_fmt", .text), ("email_batch_seconds", .number),
    ("default_node", .text), ("node_pack", .flag), ("query_other_jobs", .flag),
    ("mom_job_sync", .flag), ("down_on_error", .flag), ("disable_server_id_check", .flag),
    ("allow_node_submit", .flag), ("allow_proxy_user", .flag), ("auto_node_np", .flag),
    ("np_default", .number), ("allow_dynamic_nodes", .flag), ("node_allowed_ip_ranges", .text),
    ("job_nanny", .flag), ("owner_purge", .flag), ("copy_on_rerun", .flag),
    ("job_exclusive_on_use", .flag), ("disable_automatic_requeue", .flag),
    ("automatic_requeue_exit_code", .number), ("dont_write_nodes_file", .flag),
    ("max_job_array_size", .number), ("max_slot_limit", .number), ("clone_batch_size", .number),
    ("clone_batch_delay", .number), ("moab_array_compatible", .flag),
    ("display_job_server_suffix", .flag), ("job_suffix_alias", .text),
    ("use_jobs_subdirs", .flag),
    ("kill_delay", .number), ("user_kill_delay", .number), ("exit_code_canceled_job", .number),
    ("timeout_for_job_delete", .number), ("timeout_for_job_requeue", .number),
    ("default_gpu_mode", .text), ("idle_slot_limit", .number), ("cgroup_per_task", .flag),
    ("pass_cpu_clock", .flag),
    ("submit_hosts", .list), ("node_submit_exceptions", .text), ("node_suffix", .text),
    ("comment", .text), ("lock_file_update_time", .number), ("lock_file_check_time", .number),
    ("interactive_jobs_can_roam", .flag), ("legacy_vmem", .flag),
    ("ghost_array_recovery", .flag), ("tcp_incoming_timeout", .number),
    ("job_full_report_time", .number)]

def kindOf (name : String) : Option SettingKind := settings.lookup name

/-- The numbers `NewConfig` sets; every other number starts at zero. -/
def defaultNumber : String → Int
  | "scheduler_iteration" => 10 | "sched_trigger_port" => 25003 | "sched_min_interval" => 100
  | "default_queue_depth" => 100 | "max_sched_time" => 2 | "node_check_rate" => 600
  | "tcp_timeout" => 300 | "keep_completed" => 300 | "ping_rate" => 300
  | "job_start_timeout" => 300 | "job_sync_timeout" => 120 | "log_events" => 511
  | "log_file_roll_depth" => 1 | "max_job_array_size" => 10000 | "clone_batch_size" => 256
  | "clone_batch_delay" => 2 | "kill_delay" => 2 | "exit_code_canceled_job" => 271
  | "timeout_for_job_delete" => 120 | "timeout_for_job_requeue" => 120
  | "automatic_requeue_exit_code" => -1
  | _ => 0

def defaultFlag (name : String) : Bool :=
  name ∈ ["scheduling", "event_driven", "query_other_jobs", "mom_job_sync",
    "display_job_server_suffix"]

def newConfig (serverName : String) : Config :=
  ⟨serverName, defaultNumber, defaultFlag, fun _ => "", fun _ => ∅⟩

def setNumber (c : Config) (name : String) (v : Int) : Config :=
  { c with number := Function.update c.number name v }

def setFlag (c : Config) (name : String) (v : Bool) : Config :=
  { c with flag := Function.update c.flag name v }

def setText (c : Config) (name v : String) : Config :=
  { c with text := Function.update c.text name v }

def setResources (c : Config) (name : String) (m : Assoc String) : Config :=
  { c with resources := Function.update c.resources name m }

/-- `mergeACLValue`; operation 7 is `+=`. -/
def mergeACLValue (existing new : String) (op : Int) : String :=
  if op = 7 ∧ existing ≠ "" then existing ++ "," ++ new else new

/-- The setting a `qmgr set server` attribute names; the trigger port is not one. -/
def settable : String → Option (String × SettingKind)
  | "sched_interval" => some ("scheduler_iteration", .number)
  | "sched_trigger_port" => none
  | name => (kindOf name).map (name, ·)

/-- One attribute of `mgrSetServer`. -/
def setAttr (c : Config) (a : Attr) : Config :=
  match settable a.name with
  | none => c
  | some (name, .number) => c.setNumber name (scanInto (c.number name) a.value)
  | some (name, .flag) => c.setFlag name (parseBool a.value)
  | some (name, .text) => c.setText name a.value
  | some (name, .list) => c.setText name (mergeACLValue (c.text name) a.value a.op)
  | some (name, .resources) =>
    if a.hasResc then c.setResources name ((c.resources name).insert a.resc a.value) else c

def mgrSetServer (c : Config) (attrs : List Attr) : Config := attrs.foldl setAttr c

/-- The attributes `mgrUnsetServer` knows; all of them go back to their default. -/
def unsettable : List String :=
  ["scheduling", "default_queue", "scheduler_iteration", "node_check_rate", "tcp_timeout",
    "keep_completed", "log_events", "job_stat_rate", "poll_jobs", "ping_rate",
    "job_start_timeout", "job_force_cancel_time", "job_sync_timeout", "log_file_max_size",
    "log_file_roll_depth", "log_keep_days", "record_job_info", "record_job_script", "managers",
    "operators", "acl_host_enable", "acl_hosts", "acl_user_enable", "acl_users", "max_running",
    "max_user_run", "max_group_run", "max_user_queuable", "resources_available",
    "resources_default", "resources_max", "mail_domain", "mail_from", "default_node",
    "node_pack", "query_other_jobs", "mom_job_sync", "kill_delay", "max_job_array_size",
    "comment", "display_job_server_suffix"]

def unsetAttr (c : Config) (a : Attr) : Config :=
  if a.name ∈ unsettable then
    match kindOf a.name with
    | some .number => c.setNumber a.name (defaultNumber a.name)
    | some .flag => c.setFlag a.name (defaultFlag a.name)
    | some .text | some .list => c.setText a.name ""
    | some .resources =>
      if a.hasResc then c.setResources a.name ((c.resources a.name).erase a.resc) else c
    | none => c
  else c

def mgrUnsetServer (c : Config) (attrs : List Attr) : Config := attrs.foldl unsetAttr c

/-- `applyServerDBAttr` for every key but the job counter. -/
def applyServerDBAttr (c : Config) (key val : String) : Config :=
  match kindOf key with
  | some .number => c.setNumber key (scanInto (c.number key) val)
  | some .flag => c.setFlag key (parseBool val)
  | some .text | some .list => c.setText key val
  | some .resources | none => c

def writeTag (tag value : String) : String :=
  "  <" ++ tag ++ ">" ++ value ++ "</" ++ tag ++ ">\n"

/-- What `saveServerDB` writes for one setting; `order` is that of the loop over a
resource map. -/
def writeSetting (c : Config) (order : RangeOrder) : String × SettingKind → String
  | (tag, .number) => writeTag tag (itoa (c.number tag))
  | (tag, .flag) => writeTag tag (if c.flag tag then "True" else "False")
  | (tag, .text) | (tag, .list) => if c.text tag = "" then "" else writeTag tag (c.text tag)
  | (tag, .resources) =>
    let m := c.resources tag
    String.join ((m.range order).map fun k => writeTag (tag ++ "." ++ k) ((m.lookup k).getD ""))

/-- The document `saveServerDB` writes. -/
def serverDB (c : Config) (order : RangeOrder) (nextJobID : Int) : String :=
  "<?xml version=\"1.0\" encoding=\"UTF-8\"?>\n<server_db>\n" ++
    writeTag "nextjobid" (itoa nextJobID) ++
    String.join (settings.map (c.writeSetting order)) ++ "</server_db>\n"

def extractXMLTag (content tag : String) : String :=
  match Text.cutText ("<" ++ tag ++ ">") content with
  | none => ""
  | some (_, rest) =>
    match Text.cutText ("</" ++ tag ++ ">") rest with
    | none => ""
    | some (value, _) => Text.trimSpace value

/-- The loop of `parseResourceMapXML` over what is left of the document. -/
def resourceEntries (tag : List Char) : Nat → List Char → List (String × String)
  | 0, _ => []
  | fuel + 1, content =>
    match Text.cutChars ('<' :: tag ++ ['.']) content with
    | none => []
    | some (_, rest) =>
      match rest.span (· ≠ '>') with
      | (_, []) => []
      | (resc, _ :: body) =>
        match Text.cutChars ('<' :: '/' :: tag ++ '.' :: resc ++ ['>']) body with
        | none => []
        | some (value, rest) =>
          (.ofList resc, .ofList (Text.trim value)) :: resourceEntries tag fuel rest

def parseResourceMapXML (c : Config) (content tag : String) : Config :=
  let entries := resourceEntries tag.toList content.length content.toList
  c.setResources tag (entries.foldl (fun m (resc, v) => m.insert resc v) (c.resources tag))

/-- The settings that have no tag in the table of `recoverServerDBXML`. -/
def unread : List String :=
  ["event_driven", "sched_min_interval", "default_queue_depth", "sched_max_job_start",
    "max_sched_time", "defer", "defer_batch", "sched_trigger_port"]

/-- The tags `recoverServerDBXML` looks for, next to `nextjobid`. -/
def xmlTags : List String :=
  (settings.filter fun s => s.2 ≠ .resources ∧ s.1 ∉ unread).map (·.1)

def resourceTags : List String :=
  ["resources_available", "resources_default", "resources_max", "resources_cost"]

def readTag (content : String) (c : Config) (tag : String) : Config :=
  match extractXMLTag content tag with
  | "" => c
  | val => c.applyServerDBAttr tag val

def recoverServerDBXML (c : Config) (content : String) : Config :=
  resourceTags.foldl (fun c tag => c.parseResourceMapXML content tag)
    (xmlTags.foldl (readTag content) c)

def readLine (c : Config) (line : String) : Config :=
  match Text.cutKey '=' (Text.trimSpace line) with
  | none => c
  | some (key, val) => c.applyServerDBAttr key val

def isXML (content : String) : Bool :=
  Text.contains content "<server_db>" || Text.contains content "<nextjobid>"

/-- `recoverServerDB` on the document of the store, the settings. -/
def recoverServerDB (c : Config) (content : String) : Config :=
  if isXML content then c.recoverServerDBXML content
  else (Text.split '\n' content).foldl readLine c

theorem applyServerDBAttr_serverName (c : Config) (key val : String) :
    (c.applyServerDBAttr key val).serverName = c.serverName := by
  unfold applyServerDBAttr
  split <;> rfl

theorem recoverServerDB_serverName (c : Config) (content : String) :
    (c.recoverServerDB content).serverName = c.serverName := by
  have tag (d : Config) (name : String) : (readTag content d name).serverName = d.serverName := by
    unfold readTag
    split
    · rfl
    · exact d.applyServerDBAttr_serverName _ _
  have line (d : Config) (text : String) : (readLine d text).serverName = d.serverName := by
    unfold readLine
    split
    · rfl
    · exact d.applyServerDBAttr_serverName _ _
  let Kept (d : Config) : Prop := d.serverName = c.serverName
  unfold recoverServerDB
  split
  · refine List.foldlRecOn (motive := Kept) resourceTags _ ?_ fun d kept name _ => kept
    exact List.foldlRecOn (motive := Kept) xmlTags _ rfl fun d kept name _ => (tag d name).trans kept
  · exact List.foldlRecOn (motive := Kept) _ _ rfl fun d kept text _ => (line d text).trans kept

/-- The job counter a line of the older format sets. -/
def lineCounter (line : String) : Option Int :=
  match Text.cutKey '=' (Text.trimSpace line) with
  | some ("nextjobid", val) | some ("next_job_id", val) => parseInt val
  | _ => none

/-- `recoverServerDB` on the document of the store, the job counter. -/
def recoverNextJobID (content : String) : Option Int :=
  if isXML content then parseInt (extractXMLTag content "nextjobid")
  else (Text.split '\n' content).reverse.findSome? lineCounter

/-- What stands before the first tag of `serverdb`. -/
def header : String := "<?xml version=\"1.0\" encoding=\"UTF-8\"?>\n<server_db>\n  "

theorem serverDB_toList (c : Config) (order : RangeOrder) (n : Int) : ∃ rest : List Char,
    (c.serverDB order n).toList =
      header.toList ++ "<nextjobid>".toList ++ ((itoa n).toList ++ "</nextjobid>".toList ++ rest) := by
  refine ⟨'\n' :: (String.join (settings.map (c.writeSetting order)) ++ "</server_db>\n").toList, ?_⟩
  unfold serverDB
  generalize String.join (settings.map (c.writeSetting order)) = written
  simp only [writeTag, header, String.toList_append, String.reduceToList, List.append_assoc,
    List.cons_append, List.nil_append]

theorem cut_nextjobid (rest : List Char) :
    Text.cutChars "<nextjobid>".toList (header.toList ++ "<nextjobid>".toList ++ rest) =
      some (header.toList, rest) := by
  simp only [header, String.reduceToList, List.cons_append, List.nil_append]
  rfl

/-- The counter comes back from the document it was written to. -/
theorem recoverNextJobID_serverDB (c : Config) (order : RangeOrder) (low : minInt ≤ n)
    (high : n ≤ maxInt) : recoverNextJobID (c.serverDB order n) = some n := by
  obtain ⟨rest, split⟩ := c.serverDB_toList order n
  have found := cut_nextjobid ((itoa n).toList ++ "</nextjobid>".toList ++ rest)
  have isDoc : isXML (c.serverDB order n) := by
    simp [isXML, Text.contains_of_append split]
  have clean : '<' ∉ (itoa n).toList := fun member => by simpa using mem_itoa member
  have value : Text.cutChars "</nextjobid>".toList
      ((itoa n).toList ++ "</nextjobid>".toList ++ rest) = some ((itoa n).toList, rest) :=
    Text.cutChars_append _ rest "/nextjobid>".toList clean
  have trimmed : Text.trim (itoa n).toList = (itoa n).toList := by
    refine Text.trim_of_clean fun x member => ?_
    rcases mem_itoa member with rfl | digit
    · decide
    · exact isSpace_of_isDigit digit
  have extracted : extractXMLTag (c.serverDB order n) "nextjobid" = itoa n := by
    simp only [extractXMLTag, Text.cutText, Text.trimSpace, split]
    rw [show ("<" ++ "nextjobid" ++ ">") = "<nextjobid>" from rfl, found]
    simp only [Option.map_some, String.toList_ofList]
    rw [show ("</" ++ "nextjobid" ++ ">") = "</nextjobid>" from rfl, value]
    simp [trimmed]
  rw [recoverNextJobID, if_pos isDoc, extracted]
  exact parseInt_itoa n low high

theorem recoverNextJobID_fits (read : recoverNextJobID content = some n) : n ≤ maxInt := by
  unfold recoverNextJobID at read
  split at read
  · exact (parseInt_fits read).2
  · obtain ⟨line, -, counter⟩ := List.exists_of_findSome?_eq_some read
    unfold lineCounter at counter
    split at counter
    · exact (parseInt_fits counter).2
    · exact (parseInt_fits counter).2
    · cases counter

end Config

end OpenTorque.Pbs
