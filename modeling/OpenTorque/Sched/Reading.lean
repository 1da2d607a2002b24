import OpenTorque.Core.LastWins
import OpenTorque.Sched.Cycle

/-! What the scheduler's record of a node says about the node of the server. The MOM may
have reported any items; they come after the server's own `state` and `np` and before
its figures for jobs and resources. -/
namespace OpenTorque.Sched
open Pbs (Attr StatusObject Server Env Node NodeFlags Job JobText plain shown shownIf ofResource eachOf)

section Attributes
variable {V : Type} {order : RangeOrder} {m : Assoc V} {attr : String → V → List Attr} {a : Attr}

theorem mem_eachOf : a ∈ eachOf order m attr ↔ ∃ k v, m.lookup k = some v ∧ a ∈ attr k v := by
  simp only [eachOf, List.mem_flatMap, Assoc.mem_range]
  constructor
  · rintro ⟨k, known, listed⟩
    obtain ⟨v, found⟩ := Assoc.exists_lookup known
    exact ⟨k, v, found, by simpa [found] using listed⟩
  · rintro ⟨k, v, found, listed⟩
    exact ⟨k, Assoc.mem_of_lookup found, by simpa [found] using listed⟩

end Attributes

variable {F : Type} [GoFloat F]

namespace NodeInfo
variable {a : Attr}

omit [GoFloat F] in
theorem setGRes_state (n : NodeInfo F) (name value : String) :
    (n.setGRes name value).state = n.state := by
  rw [setGRes]
  split
  · rfl
  · split <;> rfl

theorem read_state (r : NodeInfo F × Bool) (a : Attr) :
    (read r a).1.state = if a.name = "state" then a.value else r.1.state := by
  obtain ⟨n, usedReported⟩ := r
  rw [read]
  split
  case h_3 => split <;> simp_all [setProcs]
  case h_4 => split <;> simp_all
  case h_6 => split <;> simp_all [setJobs]
  case h_12 => simp_all [setGRes_state]
  all_goals simp_all [setProcs]

theorem read_name (r : NodeInfo F × Bool) (a : Attr) : (read r a).1.name = r.1.name := by
  obtain ⟨n, usedReported⟩ := r
  rw [read]
  split
  case h_3 => split <;> rfl
  case h_4 => split <;> rfl
  case h_6 => split <;> rfl
  case h_12 =>
    rw [setGRes]
    split
    · rfl
    · split <;> rfl
  all_goals rfl

theorem foldl_state (attrs : List Attr) (r : NodeInfo F × Bool)
    (silent : ∀ a ∈ attrs, a.name ≠ "state") : (attrs.foldl read r).1.state = r.1.state := by
  induction attrs generalizing r with
  | nil => rfl
  | cons a attrs ih =>
    have here : (read r a).1.state = r.1.state := by
      rw [read_state, if_neg (silent a (by simp))]
    exact (ih (read r a) fun b member => silent b (by simp [member])).trans here

/-- The attributes that `parseNodeInfo` takes its processor counts from. -/
def countKeys : List String := ["np", "ncpus", "used_cpus", "jobs"]

omit [GoFloat F] in
theorem settle_state (r : NodeInfo F × Bool) : (settle r).state = r.1.state := by
  obtain ⟨n, usedReported⟩ := r
  cases usedReported <;> rfl

end NodeInfo

namespace JobInfo
variable (j : JobInfo) (a : Attr)

/-- The resource that an attribute of a job's status is about. -/
def resourceOf (a : Attr) : Option String := Text.afterPrefix "Resource_List." (keyOf a)

def knownKeys : List String :=
  ["Job_Owner", "job_state", "queue", "Priority", "qtime"] ++
    Job.builtinResources.map ("Resource_List." ++ ·)

/-- What one attribute does to the fields of a record that the results are about. -/
structure Reads (j : JobInfo) (key value : String) (k : JobInfo) : Prop where
  id : k.id = j.id
  canNotRun : k.canNotRun = j.canNotRun
  queue : k.queue = if key = "queue" then value else j.queue
  state : k.state = if key = "job_state" then value else j.state
  queueTime : k.queueTime =
    if key = "qtime" then ((parseInt value).map Time.ofUnix).getD j.queueTime else j.queueTime
  cpuReq : k.cpuReq = if key = "Resource_List.ncpus" then atoi value else j.cpuReq
  nodes : k.nodes = if key = "Resource_List.nodes" ∨ key = "Resource_List.select" then
    (parseNodeSelectSpec value).1 else j.nodes
  ppn : k.ppn = if key = "Resource_List.nodes" ∨ key = "Resource_List.select" then
    (parseNodeSelectSpec value).2 else
      if key = "Resource_List.ppn" then ((parseInt value).filter (0 < ·)).getD j.ppn else j.ppn
  gres : k.gres = if key ∈ knownKeys then j.gres else (j.setGRes key value).gres

theorem reads_setHost {key value : String} (host : key = "Resource_List.host") :
    j.Reads key value (j.setHost value) := by
  subst host
  rw [setHost]
  split <;> exact ⟨rfl, rfl, rfl, rfl, rfl, rfl, rfl, rfl, rfl⟩

theorem reads_setGRes {key value : String} (unknown : key ∉ knownKeys) :
    j.Reads key value (j.setGRes key value) := by
  have gres : (j.setGRes key value).gres = if key ∈ knownKeys then j.gres else
    (j.setGRes key value).gres := (if_neg unknown).symm
  simp [knownKeys, Job.builtinResources] at unknown
  refine ⟨?_, ?_, ?_, ?_, ?_, ?_, ?_, ?_, gres⟩
  all_goals
    rw [setGRes]
    split <;> simp [unknown]

theorem reads : j.Reads (keyOf a) a.value (j.read a) := by
  rw [read]
  split
  case h_12 key => exact j.reads_setHost key
  case h_16 =>
    refine j.reads_setGRes ?_
    simp_all [knownKeys, Job.builtinResources]
  all_goals
    rename_i key
    constructor <;> simp [key, setNodes, knownKeys, Job.builtinResources]

theorem foldl_kept (attrs : List Attr) : (attrs.foldl read j).id = j.id ∧
    (attrs.foldl read j).canNotRun = j.canNotRun :=
  List.foldlRecOn (motive := fun k : JobInfo => k.id = j.id ∧ k.canNotRun = j.canNotRun) attrs _
    ⟨rfl, rfl⟩ fun k same a _ =>
      ⟨(k.reads a).id.trans same.1, (k.reads a).canNotRun.trans same.2⟩

theorem parseJobInfo_kept (obj : StatusObject) :
    (parseJobInfo obj).id = obj.name ∧ (parseJobInfo obj).canNotRun = false :=
  foldl_kept { id := obj.name } obj.attrs

theorem resourceOf_eq_some {resc : String} :
    resourceOf a = some resc ↔ keyOf a = "Resource_List." ++ resc :=
  ⟨Text.afterPrefix_eq_some, fun key => by rw [resourceOf, key, Text.afterPrefix_append]⟩

variable {j a}

theorem foreign_plain {name : String} (other : Text.afterPrefix "Resource_List." name = none)
    (value : String) : resourceOf (plain name value) = none := other

theorem foreign_shown {name : String} (other : Text.afterPrefix "Resource_List." name = none)
    (value : String) : ∀ a ∈ shown name value, resourceOf a = none := by
  rw [shown]
  split
  · simp
  · simpa using foreign_plain other value

theorem foreign_shownIf {name : String} (other : Text.afterPrefix "Resource_List." name = none)
    (condition : Bool) (value : String) : ∀ a ∈ shownIf condition name value, resourceOf a = none := by
  rw [shownIf]
  split
  · simpa using foreign_plain other value
  · simp

theorem foreign_shownTime {name : String} (other : Text.afterPrefix "Resource_List." name = none)
    (time : Time) : ∀ a ∈ Job.shownTime name time, resourceOf a = none := by
  rw [Job.shownTime]
  split
  · simp
  · exact foreign_shown other _

theorem foreign_shownText (job : Job) (fields : List JobText) :
    ∀ a ∈ job.shownText fields, resourceOf a = none := by
  intro a member
  obtain ⟨field, -, listed⟩ := List.mem_flatMap.mp member
  exact foreign_shown (by cases field <;> decide) _ a listed

theorem foreign_used (order : RangeOrder) (m : Assoc String) :
    ∀ a ∈ Job.shownResources order "resources_used" m, resourceOf a = none := by
  intro a member
  obtain ⟨k, v, -, listed⟩ := mem_eachOf.mp member
  split at listed
  · simp at listed
  · rw [List.mem_singleton.mp listed, resourceOf, keyOf]
    refine Text.afterPrefix_eq_none ?_ (show _ = some 'R' by decide) (show 'r' ≠ 'R' by decide)
    split <;> simp [ofResource]

theorem foreign_default (condition : Prop) [Decidable condition] :
    ∀ a ∈ if condition then shown "Checkpoint" "u" else [], resourceOf a = none := by
  split
  · exact foreign_shown (by decide) _
  · simp

/-- The attributes of a job's status that are not about its resources are foreign. -/
theorem status_attrs (job : Job) (id : String) (order : RangeOrder) :
    ∃ before after, (job.status id order).attrs =
        before ++ Job.shownResources order "Resource_List" job.resourceReq ++ after ∧
      (∀ a ∈ before, resourceOf a = none) ∧ ∀ a ∈ after, resourceOf a = none := by
  have shape : ∀ b r u w t : List Attr, b ++ r ++ u ++ w ++ t = b ++ r ++ (u ++ (w ++ t)) := by
    intros
    simp
  refine ⟨_, _, shape _ _ _ _ _, ?_, ?_⟩
  · simp only [List.forall_mem_append]
    and_intros
    all_goals first
      | exact foreign_shownText _ _
      | exact foreign_shown (by decide) _
      | exact foreign_shownIf (by decide) _ _
      | exact foreign_shownTime (by decide) _
      | exact foreign_default _
  · simp only [List.forall_mem_append]
    exact ⟨foreign_used _ _, foreign_shown (by decide) _, foreign_shownText _ _⟩

/-- What one resource of a job's request does to the record. -/
def readResource (req : Assoc String) (j : JobInfo) (resc : String) : JobInfo :=
  ((req.lookup resc).elim [] fun v =>
    if v = "" then [] else [ofResource "Resource_List" resc v]).foldl read j

theorem foldl_shownResources (order : RangeOrder) (req : Assoc String) (j : JobInfo) :
    (Job.shownResources order "Resource_List" req).foldl read j =
      (req.range order).foldl (readResource req) j := by
  rw [Job.shownResources, eachOf, List.foldl_flatMap]
  rfl

theorem resourceOf_ofResource (resc value : String) :
    resourceOf (ofResource "Resource_List" resc value) = if resc = "" then none else some resc := by
  split
  case isTrue empty =>
    rw [empty, show resourceOf _ = Text.afterPrefix "Resource_List." "Resource_List" from rfl]
    decide
  case isFalse named => simp [resourceOf_eq_some, keyOf, ofResource, named]

/-- A field that the resources of a job may set has the value of the last that does. -/
theorem parseJobInfo_field {V : Type} (field : JobInfo → V) (told : String → String → Option V)
    (sets : ∀ j a, field (j.read a) = ((resourceOf a).bind (told · a.value)).getD (field j))
    (job : Job) (id : String) (order : RangeOrder) :
    field (parseJobInfo (job.status id order)) =
      (lastOf (fun resc => if resc = "" ∨ job.resource resc = "" then none
        else told resc (job.resource resc)) (job.resourceReq.range order)).getD (field { id }) := by
  obtain ⟨before, after, attrs, first, last⟩ := status_attrs job id order
  have foreign : ∀ (attrs : List Attr) (j : JobInfo), (∀ a ∈ attrs, resourceOf a = none) →
      field (attrs.foldl read j) = field j := by
    intro attrs j other
    refine List.foldlRecOn (motive := fun k => field k = field j) attrs _ rfl fun k same a member => ?_
    rw [sets, other a member, ← same]
    rfl
  have resources : ∀ j resc, field (readResource job.resourceReq j resc) =
      (if resc = "" ∨ job.resource resc = "" then none else told resc (job.resource resc)).getD
        (field j) := by
    intro j resc
    rw [readResource, Job.resource]
    cases job.resourceReq.lookup resc with
    | none => simp
    | some v =>
      by_cases empty : v = ""
      · simp [empty]
      · simp only [Option.elim_some, Option.getD_some, if_neg empty, List.foldl_cons, List.foldl_nil,
          sets, resourceOf_ofResource]
        by_cases named : resc = ""
        · simp [named]
        · simp [named, empty, ofResource]
  rw [parseJobInfo, attrs, List.foldl_append, List.foldl_append, foreign after _ last,
    foldl_shownResources, foldl_lastOf resources, foreign before _ first]
  rfl

/-- The amount of a generic resource that a job asks for, as the scheduler reads it. -/
def gresRead (job : Job) (resc : String) : Option Int :=
  if resc = "" ∨ resc ∈ Job.builtinResources then none
  else (parseInt (job.resource resc)).filter (0 < ·)

/-- The processors a job asks for, as the scheduler reads them. -/
def cpusRead (job : Job) : Int :=
  if job.resource "ncpus" = "" then 1 else atoi (job.resource "ncpus")

theorem resource_of_not_mem {job : Job} {resc : String} (absent : resc ∉ job.resourceReq) :
    job.resource resc = "" := by
  rw [Job.resource, AList.lookup_eq_none.mpr absent, Option.getD_none]

theorem parseJobInfo_cpuReq (job : Job) (id : String) (order : RangeOrder) :
    (parseJobInfo (job.status id order)).cpuReq = cpusRead job := by
  rw [parseJobInfo_field cpuReq fun resc v => if resc = "ncpus" then some (atoi v) else none, Assoc.lastOf_range "ncpus"]
  · by_cases empty : job.resource "ncpus" = "" <;> simp [cpusRead, empty]
  · intro resc other
    simp [other]
  · intro absent
    simp [resource_of_not_mem absent]
  · intro j a
    have key : resourceOf a = some "ncpus" ↔ keyOf a = "Resource_List.ncpus" := resourceOf_eq_some a
    simp only [(j.reads a).cpuReq, ← key]
    cases resourceOf a with
    | none => simp
    | some resc => by_cases here : resc = "ncpus" <;> simp [here]

theorem known_resource (resc : String) :
    "Resource_List." ++ resc ∈ knownKeys ↔ resc ∈ Job.builtinResources := by
  have other : "Resource_List." ++ resc ∉ ["Job_Owner", "job_state", "queue", "Priority", "qtime"] := by
    simp only [List.mem_cons, List.not_mem_nil, or_false, not_or]
    refine ⟨?_, ?_, ?_, ?_, ?_⟩ <;> exact Text.append_ne (by decide) resc
  rw [knownKeys, List.mem_append, or_iff_right other]
  simp [String.append_right_inj]

theorem parseJobInfo_gres (job : Job) (id : String) (order : RangeOrder) (name : String) :
    (parseJobInfo (job.status id order)).gres.lookup name = gresRead job name := by
  rw [parseJobInfo_field (·.gres.lookup name) fun resc v =>
    if resc = name ∧ resc ∉ Job.builtinResources then ((parseInt v).filter (0 < ·)).map some else none, Assoc.lastOf_range name]
  · by_cases plain : name = "" ∨ job.resource name = ""
    · rcases plain with unnamed | empty
      · simp [gresRead, unnamed]
      · simp [gresRead, empty, show parseInt "" = none by decide]
    · obtain ⟨named, given⟩ := not_or.mp plain
      by_cases built : name ∈ Job.builtinResources
      · simp [gresRead, named, given, built]
      · rw [gresRead, if_neg (not_or.mpr ⟨named, built⟩), if_neg plain, if_pos ⟨rfl, built⟩]
        cases (parseInt (job.resource name)).filter (0 < ·) <;> rfl
  · intro resc other
    simp [other]
  · intro absent
    simp [resource_of_not_mem absent]
  · intro j a
    rw [(j.reads a).gres]
    cases about : resourceOf a with
    | none =>
      rw [setGRes, show Text.afterPrefix _ _ = none from about, ite_self]
      rfl
    | some resc =>
      have key := (resourceOf_eq_some a).mp about
      simp only [key, known_resource]
      by_cases built : resc ∈ Job.builtinResources
      · simp [built]
      · rw [if_neg built, setGRes, Text.afterPrefix_append]
        cases (parseInt a.value).filter (0 < ·) with
        | none => simp
        | some n =>
          by_cases here : resc = name
          · subst here
            simp [built]
          · simp [here, Ne.symm here]

end JobInfo

section Status
variable (s : Server) (env : Env) (name : String) (n : Node)

def momItems : List Attr :=
  eachOf (env.order .resources) n.status fun k v => if k = "state" then [] else [plain k v]

def reportedUse : Int :=
  n.assignedJobs.foldl (fun used jid => wrap64 (used + s.chargedCPUs env jid)) 0

def jobItems : List Attr :=
  if n.assignedJobs = [] then []
  else [plain "jobs" (Text.join ", " n.assignedJobs),
    plain "used_cpus" (itoa (reportedUse s env n))]

def gresItems : List Attr :=
  eachOf (env.order .gres) n.gres
    (fun resc count => [plain ("resources_available." ++ resc) (itoa count)]) ++
  eachOf (env.order .gres) (s.gresUsed env n)
    (fun resc used => [plain ("gres_used." ++ resc) (itoa used)])

def labels : List Attr :=
  shownIf (n.properties ≠ []) "properties" (Text.join "," n.properties) ++
    shownIf (n.groups ≠ []) "hostgroups" (Text.join "," n.groups) ++
    shown "note" n.note ++ shownIf n.dynamic "is_dynamic" "true"

theorem nodeStatus_attrs : (s.nodeStatus env name n).attrs =
    [plain "state" n.state.stateName, plain "power_state" n.powerState,
      plain "np" (itoa n.numProcs), plain "ntype" "cluster"] ++ momItems env n ++
      jobItems s env n ++ gresItems s env n ++ labels n := by
  simp [Server.nodeStatus, momItems, jobItems, gresItems, labels, reportedUse]

variable {s env n} {a : Attr}

theorem mem_momItems : a ∈ momItems env n ↔
    ∃ k v, n.status.lookup k = some v ∧ k ≠ "state" ∧ a = plain k v := by
  simp only [momItems, mem_eachOf]
  constructor
  · rintro ⟨k, v, found, listed⟩
    split at listed
    · simp at listed
    · exact ⟨k, v, found, ‹_›, by simpa using listed⟩
  · rintro ⟨k, v, found, other, rfl⟩
    exact ⟨k, v, found, by simp [other]⟩

theorem name_of_mem_jobItems (member : a ∈ jobItems s env n) :
    a.name = "jobs" ∨ a.name = "used_cpus" := by
  rw [jobItems] at member
  split at member
  · simp at member
  · simp only [List.mem_cons, List.not_mem_nil, or_false] at member
    rcases member with rfl | rfl
    · exact .inl rfl
    · exact .inr rfl

theorem name_of_mem_gresItems (member : a ∈ gresItems s env n) :
    (∃ resc, a.name = "resources_available." ++ resc) ∨ ∃ resc, a.name = "gres_used." ++ resc := by
  rw [gresItems, List.mem_append, mem_eachOf, mem_eachOf] at member
  rcases member with ⟨resc, v, -, listed⟩ | ⟨resc, v, -, listed⟩
  · rw [List.mem_singleton.mp listed]
    exact .inl ⟨resc, rfl⟩
  · rw [List.mem_singleton.mp listed]
    exact .inr ⟨resc, rfl⟩

theorem name_of_mem_labels (member : a ∈ labels n) :
    a.name ∈ ["properties", "hostgroups", "note", "is_dynamic"] := by
  simp only [labels, shown, shownIf, List.mem_append] at member
  rcases member with ((listed | listed) | listed) | listed
  all_goals
    split at listed
    · simp_all [plain]
    · simp_all [plain]

end Status

theorem parseNodeInfo_name (obj : StatusObject) :
    (parseNodeInfo obj : NodeInfo F).name = obj.name := by
  have settled : ∀ r : NodeInfo F × Bool, (NodeInfo.settle r).name = r.1.name := by
    rintro ⟨n, usedReported⟩
    cases usedReported <;> rfl
  rw [parseNodeInfo, settled]
  exact List.foldlRecOn (motive := fun r : NodeInfo F × Bool => r.1.name = obj.name) _ _ rfl
    fun r same a _ => (NodeInfo.read_name r a).trans same

theorem parseNodeInfo_state (s : Server) (env : Env) (name : String) (n : Node) :
    (parseNodeInfo (s.nodeStatus env name n) : NodeInfo F).state = n.state.stateName := by
  have later : ∀ a ∈ momItems env n ++ jobItems s env n ++ gresItems s env n ++ labels n,
      a.name ≠ "state" := by
    intro a member
    simp only [List.mem_append] at member
    rcases member with ((mom | job) | gres) | label
    · obtain ⟨k, v, -, other, rfl⟩ := mem_momItems.mp mom
      exact other
    · rcases name_of_mem_jobItems job with same | same <;> simp [same]
    · rcases name_of_mem_gresItems gres with ⟨resc, same⟩ | ⟨resc, same⟩
      · exact same ▸ Text.append_ne (by decide) resc
      · exact same ▸ Text.append_ne (by decide) resc
    · have listed := name_of_mem_labels label
      rintro same
      simp [same] at listed
  rw [parseNodeInfo, NodeInfo.settle_state, nodeStatus_attrs, List.append_assoc, List.append_assoc,
    List.append_assoc, List.foldl_append, ← List.append_assoc, ← List.append_assoc,
    NodeInfo.foldl_state _ _ later]
  simp [NodeInfo.read_state, plain]

theorem other_gresItems {s : Server} {env : Env} {n : Node} {a : Attr} (member : a ∈ gresItems s env n ++ labels n) :
    a.name ∉ NodeInfo.countKeys := by
  rcases List.mem_append.mp member with gres | label
  · simp only [NodeInfo.countKeys, List.mem_cons, List.not_mem_nil, or_false, not_or]
    rcases name_of_mem_gresItems gres with ⟨resc, same⟩ | ⟨resc, same⟩ <;> rw [same] <;>
      exact ⟨Text.append_ne (by decide) resc, Text.append_ne (by decide) resc,
        Text.append_ne (by decide) resc, Text.append_ne (by decide) resc⟩
  · have listed := name_of_mem_labels label
    intro key
    have disjoint : ∀ k ∈ NodeInfo.countKeys, k ∉ ["properties", "hostgroups", "note", "is_dynamic"] := by
      decide
    exact disjoint a.name key listed

end OpenTorque.Sched
