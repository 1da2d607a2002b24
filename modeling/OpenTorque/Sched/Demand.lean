import OpenTorque.Core.MachineSum
import OpenTorque.Sched.Exclusive
import OpenTorque.Sched.Trace

/-! The demand for cloud nodes: the capacity events of a full cycle and the processors that the
server will charge for the jobs they name. -/
namespace OpenTorque.Sched
open Pbs

section Pending
variable {F : Type} [GoFloat F] {cfg : Config} {limited : Bool} {v : View} {queues : List QueueInfo}
  {answers : Stream' Bool} {p q : Progress F} {fuel attempt : Nat}

theorem trace_subperm : ((course cfg limited v queues fuel attempt answers p).trace.map (·.1)).Subperm
    (JobIterator.pending p.jobs.queues) := by
  fun_induction course cfg limited v queues fuel attempt answers p with
  | case1 | case2 | case3 | case4 => exact List.nil_subperm
  | case5 _ _ _ p _ j jobs next fate q later faced =>
    exact (List.sublist_append_left [j] _).subperm.trans (JobIterator.next_draws next)
  | case6 _ _ _ p _ j jobs next fate q later faced ih =>
    have same : q.jobs = jobs := face_jobs faced
    rw [same] at ih
    exact (List.subperm_cons j |>.mpr ih).trans (JobIterator.next_draws next)

def cloudQueue (queues : List QueueInfo) (name : String) : Option QueueInfo :=
  (queueForJob queues name).filter (·.cloudBacked)

theorem cloudQueue_eq_some {name : String} {q : QueueInfo} (found : cloudQueue queues name = some q) :
    q ∈ queues ∧ q.name = name ∧ q.cloudBacked = true := by
  obtain ⟨listed, cloud⟩ := Option.filter_eq_some_iff.mp found
  exact ⟨List.mem_of_find?_eq_some listed, by simpa using List.find?_some listed, cloud⟩

def demandAfter (queues : List QueueInfo) (pending : Assoc CapacityEvent) (entry : JobInfo × Fate) :
    Assoc CapacityEvent :=
  match entry.2, cloudQueue queues entry.1.queue with
  | .blocked, some q => addDemand pending q entry.1
  | _, _ => pending

theorem face_pendingCap {j : JobInfo} {fate : Fate} {after : Turn F} {later : Stream' Bool}
    (faced : face cfg limited queues answers p j = (fate, after, later)) :
    after.progress.pendingCap = demandAfter queues p.pendingCap (j, fate) := by
  obtain ⟨rfl, -, rfl⟩ | ⟨rfl, -, -, rfl⟩ | ⟨rfl, -, -, name, rfl⟩ := face_cases faced
  · unfold blocked demandAfter cloudQueue
    cases (queueForJob queues j.queue).filter (·.cloudBacked) with
    | some q => rfl
    | none => cases cfg.strictStop <;> rfl
  · rfl
  · unfold started
    dsimp only
    split
    · rfl
    · split <;> rfl

theorem course_pendingCap
    (ended : (course cfg limited v queues fuel attempt answers p).last = some q) :
    q.pendingCap = (course cfg limited v queues fuel attempt answers p).trace.foldl
      (demandAfter queues) p.pendingCap := by
  fun_induction course cfg limited v queues fuel attempt answers p with
  | case1 | case3 => cases ended
  | case2 | case4 =>
    cases ended
    rfl
  | case5 _ _ _ p _ j jobs next fate r later faced =>
    cases ended
    exact face_pendingCap faced
  | case6 _ _ _ p _ j jobs next fate r later faced ih =>
    have first : r.pendingCap = demandAfter queues p.pendingCap (j, fate) := face_pendingCap faced
    rw [ih ended, Course.after, List.foldl_cons, first]

def unplaced (entries : List (JobInfo × Fate)) (name : String) : List JobInfo :=
  (entries.filter fun entry => entry.2 = .blocked && entry.1.queue = name).map (·.1)

def QueueInfo.eventFor (q : QueueInfo) (jobs : List JobInfo) : CapacityEvent :=
  jobs.foldl CapacityEvent.block { queue := q.name, cloud := q.cloud }

theorem eventFor_append (q : QueueInfo) (jobs : List JobInfo) (j : JobInfo) :
    q.eventFor (jobs ++ [j]) = (q.eventFor jobs).block j := by
  rw [QueueInfo.eventFor, List.foldl_append]
  rfl

theorem unplaced_append (entries more : List (JobInfo × Fate)) (name : String) :
    unplaced (entries ++ more) name = unplaced entries name ++ unplaced more name := by
  simp [unplaced]

/-- The demand of a queue is the event for its jobs that found no node. -/
theorem lookup_demand (queues : List QueueInfo) (entries : List (JobInfo × Fate)) (name : String) :
    (entries.foldl (demandAfter queues) ∅).lookup name =
      (cloudQueue queues name).bind fun q =>
        if unplaced entries name = [] then none else some (q.eventFor (unplaced entries name)) := by
  induction entries using List.reverseRecOn with
  | nil => cases cloudQueue queues name <;> rfl
  | append_singleton entries entry ih =>
    obtain ⟨j, fate⟩ := entry
    rw [List.foldl_append, List.foldl_cons, List.foldl_nil, unplaced_append, demandAfter]
    by_cases adds : fate = .blocked ∧ j.queue = name
    · obtain ⟨rfl, rfl⟩ := adds
      have last : unplaced [(j, .blocked)] j.queue = [j] := by simp [unplaced]
      rw [last]
      cases found : cloudQueue queues j.queue with
      | none => rw [ih, found]; rfl
      | some q =>
        have named := (cloudQueue_eq_some found).2.1
        dsimp only
        rw [addDemand, named, AList.lookup_insert, ih, found, Option.bind_some, Option.bind_some,
          if_neg (List.append_ne_nil_of_right_ne_nil _ (List.cons_ne_nil _ _)), eventFor_append]
        by_cases first : unplaced entries j.queue = []
        · rw [if_pos first, first, Option.getD_none, ← named]
          rfl
        · rw [if_neg first]
          rfl
    · have none : unplaced [(j, fate)] name = [] := by
        rw [unplaced, List.filter_eq_nil_iff.mpr (by simpa using adds), List.map_nil]
      rw [none, List.append_nil]
      split
      case h_1 blocked found =>
        cases blocked
        rw [addDemand, AList.lookup_insert_ne, ih]
        rw [(cloudQueue_eq_some found).2.1]
        exact fun same => adds ⟨rfl, same.symm⟩
      case h_2 => exact ih

theorem eventFor_fields (q : QueueInfo) (jobs : List JobInfo) :
    (q.eventFor jobs).queue = q.name ∧ (q.eventFor jobs).cloud = q.cloud ∧
      (q.eventFor jobs).jobs = jobs.map (·.id) ∧
      (q.eventFor jobs).cores = wrap64 (jobs.map JobInfo.demand).sum := by
  induction jobs using List.reverseRecOn with
  | nil => exact ⟨rfl, rfl, rfl, rfl⟩
  | append_singleton jobs j ih =>
    obtain ⟨queue, cloud, ids, cores⟩ := ih
    rw [eventFor_append]
    refine ⟨queue, cloud, ?_, ?_⟩
    · simp [CapacityEvent.block, ids]
    · simp [CapacityEvent.block, cores, wrap64_wrap64_add]

end Pending

section Events
variable {F : Type} {v : View} {queues : List QueueInfo} {p : Progress F} {jobs : Assoc Job}
  {info : ServerInfo F} {entries : List (JobInfo × Fate)} {ev : CapacityEvent}

theorem mem_capacityEvents (pending : p.pendingCap = entries.foldl (demandAfter queues) ∅) :
    ev ∈ (result v queues p).capacityEvents ↔ ∃ name q, cloudQueue queues name = some q ∧
      unplaced entries name ≠ [] ∧ ev = (q.eventFor (unplaced entries name)).sized := by
  have one (name : String) : (p.pendingCap.lookup name).map CapacityEvent.sized = some ev ↔
      ∃ q, cloudQueue queues name = some q ∧ unplaced entries name ≠ [] ∧
        ev = (q.eventFor (unplaced entries name)).sized := by
    rw [pending, lookup_demand]
    cases cloudQueue queues name with
    | none => simp
    | some q =>
      by_cases some : unplaced entries name = []
      · simp [some]
      · simp [some, eq_comm]
  simp only [result, List.mem_filterMap, one, Assoc.mem_range]
  constructor
  · rintro ⟨name, -, found⟩
    exact ⟨name, found⟩
  · rintro ⟨name, found⟩
    obtain ⟨event, listed, -⟩ := Option.map_eq_some_iff.mp ((one name).mpr found)
    exact ⟨name, Assoc.mem_of_lookup listed, found⟩

theorem sized_nodes (ev : CapacityEvent) : 1 ≤ ev.sized.nodes ∧
    (0 < ev.cloud.maxNodes → ev.sized.nodes ≤ ev.cloud.maxNodes) := by
  unfold CapacityEvent.sized
  dsimp only
  refine ⟨le_max_right _ _, fun capped => ?_⟩
  split <;> omega

/-- The events are one for each cloud queue with jobs that found no node, and name these. -/
structure Exact (queues : List QueueInfo) (entries : List (JobInfo × Fate))
    (events : List CapacityEvent) : Prop where
  single : (events.map (·.queue)).Nodup
  cloud : ∀ ev ∈ events, ∃ q ∈ queues, q.name = ev.queue ∧ q.cloudBacked = true ∧ ev.cloud = q.cloud
  jobs : ∀ ev ∈ events, ev.jobs = (unplaced entries ev.queue).map (·.id)
  complete : ∀ q, cloudQueue queues q.name = some q → unplaced entries q.name ≠ [] →
    ∃ ev ∈ events, ev.queue = q.name
  nodes : ∀ ev ∈ events, 1 ≤ ev.nodes ∧ (0 < ev.cloud.maxNodes → ev.nodes ≤ ev.cloud.maxNodes)

theorem exact_result (pending : p.pendingCap = entries.foldl (demandAfter queues) ∅) :
    Exact queues entries (result v queues p).capacityEvents where
  single := by
    have queue {name : String} {ev : CapacityEvent}
        (found : (p.pendingCap.lookup name).map CapacityEvent.sized = some ev) : ev.queue = name := by
      rw [pending, lookup_demand] at found
      obtain ⟨event, listed, rfl⟩ := Option.map_eq_some_iff.mp found
      obtain ⟨q, cloud, kept⟩ := Option.bind_eq_some_iff.mp listed
      obtain ⟨-, same⟩ := Option.ite_none_left_eq_some.mp kept
      cases same
      exact (eventFor_fields q _).1.trans (cloudQueue_eq_some cloud).2.1
    rw [List.Nodup, List.pairwise_map, result, List.pairwise_filterMap]
    refine (Assoc.nodup_range v.pendingOrder p.pendingCap).imp ?_
    intro first second differ ev found other listed same
    exact differ ((queue found).symm.trans (same.trans (queue listed)))
  cloud ev member := by
    obtain ⟨name, q, found, -, rfl⟩ := (mem_capacityEvents pending).mp member
    obtain ⟨listed, named, cloud⟩ := cloudQueue_eq_some found
    exact ⟨q, listed, (eventFor_fields q _).1.symm, cloud, (eventFor_fields q _).2.1⟩
  jobs ev member := by
    obtain ⟨name, q, found, -, rfl⟩ := (mem_capacityEvents pending).mp member
    have queue : (q.eventFor (unplaced entries name)).sized.queue = name :=
      (eventFor_fields q _).1.trans (cloudQueue_eq_some found).2.1
    rw [queue]
    exact (eventFor_fields q _).2.2.1
  complete q found some :=
    ⟨_, (mem_capacityEvents pending).mpr ⟨q.name, q, found, some, rfl⟩, (eventFor_fields q _).1⟩
  nodes ev member := by
    obtain ⟨name, q, found, -, rfl⟩ := (mem_capacityEvents pending).mp member
    exact sized_nodes _

/-- The snapshot shows some of the queued jobs, each in its queue. -/
structure Tells (jobs : Assoc Job) (info : ServerInfo F) : Prop where
  recorded : ∀ q ∈ info.queues, ∀ j ∈ q.jobs, ∃ job order, jobs.lookup j.id = some job ∧
    job.state = .queued ∧ job.queue = q.name ∧ j = parseJobInfo (job.status j.id order)
  distinct : ∀ q ∈ info.queues, (q.jobs.map (·.id)).Nodup
  named : (info.queues.map (·.name)).Nodup

/-- What the server charges for a job, on all its nodes together. -/
def chargeOf (jobs : Assoc Job) (id : String) : Int :=
  ((jobs.lookup id).map fun job => job.requestedCPUs * job.nodeRequest.1).getD 0

/-- What the scheduler adds to the demand for a job. -/
def demandOf (jobs : Assoc Job) (id : String) : Int := ((jobs.lookup id).map cpusDemanded).getD 0

def queuedIn (jobs : Assoc Job) (name : String) : List String :=
  (jobs.entries.filter fun entry => entry.2.state = .queued && entry.2.queue = name).map (·.1)

theorem mem_queuedIn {name id : String} : id ∈ queuedIn jobs name ↔
    ∃ job, jobs.lookup id = some job ∧ job.state = .queued ∧ job.queue = name := by
  simp only [queuedIn, List.mem_map, List.mem_filter, Bool.and_eq_true, decide_eq_true_eq]
  constructor
  · rintro ⟨⟨id, job⟩, ⟨listed, queued, queue⟩, rfl⟩
    exact ⟨job, AList.mem_lookup_iff.mpr listed, queued, queue⟩
  · rintro ⟨job, listed, queued, queue⟩
    exact ⟨⟨id, job⟩, ⟨AList.mem_lookup_iff.mp listed, queued, queue⟩, rfl⟩

theorem nodup_queuedIn (jobs : Assoc Job) (name : String) : (queuedIn jobs name).Nodup :=
  List.Nodup.sublist (List.filter_sublist.map _) jobs.nodupKeys

theorem parseNodeSelectSpec_pos (spec : String) : 0 < (Pbs.parseNodeSelectSpec spec).1 := by
  rw [Pbs.parseNodeSelectSpec]
  split
  · decide
  · exact (isCount_getD fun n read => isCount_parseInt read).1

theorem nodeRequest_pos (job : Job) : 0 < job.nodeRequest.1 := by
  rw [Job.nodeRequest]
  generalize (if job.resource "nodes" = "" then _ else _ : String) = spec
  by_cases empty : spec = ""
  · simp [empty]
  · simpa [empty] using parseNodeSelectSpec_pos spec

theorem chargeOf_pos {name id : String} (member : id ∈ queuedIn jobs name) : 0 < chargeOf jobs id := by
  obtain ⟨job, listed, -⟩ := mem_queuedIn.mp member
  rw [chargeOf, listed]
  exact Int.mul_pos job.requestedCPUs_isCount.1 (nodeRequest_pos job)

theorem demandOf_fits (jobs : Assoc Job) (id : String) :
    minInt ≤ demandOf jobs id ∧ demandOf jobs id ≤ maxInt := by
  rw [demandOf]
  cases jobs.lookup id with
  | none => decide
  | some job =>
    rw [Option.map_some, Option.getD_some, cpusDemanded]
    split
    · decide
    · rw [JobInfo.cpusRead]
      split
      · decide
      · exact parseIntOrZero_fits _

namespace Tells
variable {j : JobInfo} {name : String}

theorem lookup {q : QueueInfo} (tells : Tells jobs info) (listed : q ∈ info.queues) (member : j ∈ q.jobs) :
    j.id ∈ queuedIn jobs q.name ∧ j.queue = q.name ∧ j.demand = demandOf jobs j.id := by
  obtain ⟨job, order, found, queued, queue, parsed⟩ := tells.recorded q listed j member
  refine ⟨mem_queuedIn.mpr ⟨job, found, queued, queue⟩, ?_, ?_⟩
  · rw [parsed, (JobInfo.parseJobInfo_label job j.id order).1, queue]
  · rw [demandOf, found, Option.map_some, Option.getD_some, ← demand_parseJobInfo job j.id order,
      ← parsed]

theorem nodup (tells : Tells jobs info) : ((JobIterator.pending info.queues).map (·.id)).Nodup := by
  rw [JobIterator.pending, List.map_flatMap, List.nodup_flatMap]
  refine ⟨tells.distinct, ?_⟩
  have named := tells.named
  rw [List.Nodup, List.pairwise_map] at named
  refine named.imp_of_mem fun {q r} first second differ => ?_
  refine List.disjoint_left.mpr fun id inFirst inSecond => ?_
  obtain ⟨j, member, rfl⟩ := List.mem_map.mp inFirst
  obtain ⟨k, other, same⟩ := List.mem_map.mp inSecond
  obtain ⟨job, found, -, queue⟩ := mem_queuedIn.mp (tells.lookup first member).1
  obtain ⟨job', found', -, queue'⟩ := mem_queuedIn.mp (tells.lookup second other).1
  rw [same, found] at found'
  cases found'
  exact differ (queue.symm.trans queue')

theorem unplaced_subperm (tells : Tells jobs info)
    (considered : (entries.map (·.1)).Subperm (JobIterator.pending info.queues)) (name : String) :
    ((unplaced entries name).map (·.id)).Subperm (queuedIn jobs name) := by
  have distinct : ((entries.map (·.1)).map (·.id)).Nodup := by
    obtain ⟨l, same, part⟩ := considered
    exact (same.map _).nodup_iff.mp (tells.nodup.sublist (part.map _))
  refine List.subperm_of_subset (distinct.sublist ((List.filter_sublist.map _).map _)) ?_
  intro id member
  obtain ⟨j, found, rfl⟩ := List.mem_map.mp member
  obtain ⟨⟨j, fate⟩, kept, rfl⟩ := List.mem_map.mp found
  obtain ⟨listed, here⟩ := List.mem_filter.mp kept
  obtain ⟨q, shown, inside⟩ := List.mem_flatMap.mp (considered.subset (List.mem_map_of_mem listed))
  obtain ⟨queued, queue, -⟩ := tells.lookup shown inside
  simp only [Bool.and_eq_true, decide_eq_true_eq] at here
  rwa [← queue, here.2] at queued

theorem unplaced_demand (tells : Tells jobs info)
    (considered : (entries.map (·.1)).Subperm (JobIterator.pending info.queues))
    (member : j ∈ unplaced entries name) : j.demand = demandOf jobs j.id := by
  obtain ⟨⟨j, fate⟩, kept, rfl⟩ := List.mem_map.mp member
  obtain ⟨q, shown, inside⟩ := List.mem_flatMap.mp
    (considered.subset (List.mem_map_of_mem (List.mem_filter.mp kept).1))
  exact (tells.lookup shown inside).2.2

end Tells

/-- The machine sum of the demands of those jobs covers what they are charged. -/
def Covers (jobs : Assoc Job) (ids : List String) : Prop :=
  (ids.map (chargeOf jobs)).sum ≤ wrap64 (ids.map (demandOf jobs)).sum

theorem Covers.perm {ids other : List String} (same : ids.Perm other) (covers : Covers jobs ids) :
    Covers jobs other := by
  rwa [Covers, (same.map _).sum_eq, (same.map _).sum_eq] at covers

theorem event_covers_iff {q : QueueInfo} {left : List JobInfo}
    (demands : ∀ j ∈ left, j.demand = demandOf jobs j.id) :
    ((q.eventFor left).sized.jobs.map (chargeOf jobs)).sum ≤ (q.eventFor left).sized.cores ↔
      Covers jobs (left.map (·.id)) := by
  obtain ⟨-, -, named, cores⟩ := eventFor_fields q left
  change ((q.eventFor left).jobs.map (chargeOf jobs)).sum ≤ (q.eventFor left).cores ↔ _
  have sums : left.map JobInfo.demand = (left.map (·.id)).map (demandOf jobs) := by
    rw [List.map_map]
    exact List.map_congr_left demands
  rw [named, cores, Covers, sums]

/-- The events of a full cycle name each job once and cover what the server will charge. -/
def Sufficient (jobs : Assoc Job) (events : List CapacityEvent) : Prop :=
  ∀ ev ∈ events, ev.jobs.Nodup ∧ (ev.jobs.map (chargeOf jobs)).sum ≤ ev.cores

theorem sufficient_of_covers (tells : Tells jobs info)
    (considered : (entries.map (·.1)).Subperm (JobIterator.pending info.queues))
    (pending : p.pendingCap = entries.foldl (demandAfter queues) ∅)
    (covers : ∀ name, ∀ ids : List String, ids.Sublist (queuedIn jobs name) → Covers jobs ids) :
    Sufficient jobs (result v queues p).capacityEvents := by
  intro ev member
  obtain ⟨name, q, found, -, rfl⟩ := (mem_capacityEvents pending).mp member
  obtain ⟨ids, same, part⟩ := tells.unplaced_subperm considered name
  constructor
  · have named : (q.eventFor (unplaced entries name)).sized.jobs = _ := (eventFor_fields q _).2.2.1
    rw [named]
    exact same.nodup_iff.mp ((nodup_queuedIn jobs name).sublist part)
  · rw [event_covers_iff fun j => tells.unplaced_demand considered]
    exact (covers name ids part).perm same

/-! A snapshot without nodes: every job of a cloud queue is left over. -/

def recordsOf (jobs : Assoc Job) (ids : List String) : List JobInfo :=
  ids.filterMap fun id => (jobs.lookup id).map fun job => parseJobInfo (job.status id .listed)

def bareQueue (name : String) (jobs : List JobInfo) : QueueInfo := { name, cloudBacked := true, jobs }

theorem map_recordsOf {ids : List String} (known : ∀ id ∈ ids, ∃ job, jobs.lookup id = some job) :
    (recordsOf jobs ids).map (·.id) = ids := by
  induction ids with
  | nil => rfl
  | cons id ids ih =>
    rw [List.forall_mem_cons] at known
    obtain ⟨job, found⟩ := known.1
    rw [recordsOf, List.filterMap_cons_some (by rw [found]; rfl), List.map_cons]
    exact congrArg₂ _ (JobInfo.parseJobInfo_kept _).1 (ih known.2)

theorem tells_bare {name : String} {ids : List String} (part : ids.Sublist (queuedIn jobs name)) :
    Tells jobs ({ queues := [bareQueue name (recordsOf jobs ids)], nodes := [] } : ServerInfo F) where
  recorded := by
    simp only [List.forall_mem_singleton]
    intro j member
    obtain ⟨id, listed, found⟩ := List.mem_filterMap.mp member
    obtain ⟨job, known, rfl⟩ := Option.map_eq_some_iff.mp found
    obtain ⟨job', same, queued, queue⟩ := mem_queuedIn.mp (part.subset listed)
    obtain rfl : job = job' := Option.some.inj (known.symm.trans same)
    have kept : (parseJobInfo (job.status id .listed)).id = id := (JobInfo.parseJobInfo_kept _).1
    rw [kept]
    exact ⟨job, .listed, known, queued, queue, rfl⟩
  distinct := by
    simp only [List.forall_mem_singleton]
    have known : ∀ id ∈ ids, ∃ job, jobs.lookup id = some job := by
      intro id member
      obtain ⟨job, found, -⟩ := mem_queuedIn.mp (part.subset member)
      exact ⟨job, found⟩
    exact (map_recordsOf known).symm ▸ (nodup_queuedIn jobs name).sublist part
  named := List.nodup_singleton _

theorem open_bare (name : String) (jobs : List JobInfo) : (bareQueue name jobs).open = true :=
  open_of_untyped rfl rfl rfl

theorem blocked_bare (all : List JobInfo) (p : Progress F) (j : JobInfo) :
    blocked {} [bareQueue j.queue all] p j =
      .go { p with pendingCap := addDemand p.pendingCap (bareQueue j.queue all) j } := by
  have found : (queueForJob [bareQueue j.queue all] j.queue).filter (·.cloudBacked) =
      some (bareQueue j.queue all) := by
    simp [queueForJob, bareQueue]
  rw [blocked, found]

variable [GoFloat F] {answers : Stream' Bool} {fuel : Nat}

theorem course_bare {name : String} {all left : List JobInfo}
    (named : ∀ j ∈ left, j.queue = name ∧ j.canNotRun = false) (nodes : p.nodes = [])
    (jobs : p.jobs = ⟨.byQueue, [bareQueue name left], 0⟩) (enough : left.length < fuel) {attempt : Nat} :
    ∃ q, course {} false v [bareQueue name all] fuel attempt answers p =
      ⟨left.map (·, .blocked), some q⟩ := by
  induction left generalizing fuel attempt p with
  | nil =>
    obtain ⟨fuel, rfl⟩ := Nat.exists_eq_add_of_lt enough
    have next : p.jobs.next (([] : List JobInfo).length + fuel + 1) = some (none, ⟨.byQueue, [], 0⟩) := by
      have taken : JobIterator.take (bareQueue name []) = none := rfl
      simp [jobs, JobIterator.next, JobIterator.nextInOrder, open_bare, taken]
    rw [course, if_neg (by simp [exhausted]), next]
    exact ⟨_, rfl⟩
  | cons j left ih =>
    rw [List.forall_mem_cons] at named
    obtain ⟨⟨rfl, unmarked⟩, later⟩ := named
    obtain ⟨fuel, rfl⟩ := Nat.exists_eq_add_of_lt enough
    have next : p.jobs.next ((j :: left).length + fuel + 1) =
        some (some j, ⟨.byQueue, [bareQueue j.queue left], 0⟩) := by
      have taken : JobIterator.take (bareQueue j.queue (j :: left)) =
          some (j, bareQueue j.queue left) := by
        simp [JobIterator.take, bareQueue, unmarked]
      simp [jobs, JobIterator.next, JobIterator.nextInOrder, open_bare, taken]
    have none : findNodeForJob {} { queues := [bareQueue j.queue all], nodes := ([] : List (NodeInfo F)) } j = none := by
      rw [findNodeForJob]
      split <;> rfl
    rw [course, if_neg (by simp [exhausted]), next]
    dsimp only
    rw [face, nodes, none]
    dsimp only
    rw [blocked_bare]
    have rest : ∃ q, course {} false v [bareQueue j.queue all] (left.length + 1 + fuel) (attempt + 1)
        answers { p with
          nodes := []
          jobs := ⟨.byQueue, [bareQueue j.queue left], 0⟩
          pendingCap := addDemand p.pendingCap (bareQueue j.queue all) j } =
        ⟨left.map (·, .blocked), some q⟩ := ih later rfl rfl (by omega)
    obtain ⟨q, rest⟩ := rest
    exact ⟨q, congrArg (Course.after (j, .blocked)) rest⟩

theorem pending_sorted (cfg : Config) (v : View) (usage : Assoc F) (queues : List QueueInfo) :
    (JobIterator.pending (sortedByJob cfg v usage queues)).Perm (JobIterator.pending queues) := by
  rw [JobIterator.pending, sortedByJob, List.flatMap_map]
  exact List.Perm.flatMap_left _ fun q _ => sortJobs_perm cfg v usage q.jobs

theorem courseOver_subperm (cfg : Config) (limited : Bool) (v : View) (fuel : Nat)
    (usage : Assoc F) (answers : Stream' Bool)
    (s : Server) (info : ServerInfo F) :
    ((courseOver cfg limited v fuel usage answers s info).trace.map (·.1)).Subperm
      (JobIterator.pending info.queues) := by
  unfold courseOver
  exact trace_subperm.trans (pending_sorted cfg v (decayed cfg usage) info.queues).subperm

/-- What an event must cover, read off a snapshot without nodes. -/
theorem covers_of_sufficient {name : String} {ids : List String}
    (part : ids.Sublist (queuedIn jobs name))
    (always : ∀ (cfg : Config) (v : View) (fuel : Nat) (usage : Assoc F) (answers : Stream' Bool)
      (s : Server) (info : ServerInfo F) (p : Progress F), Tells jobs info →
      (courseOver cfg false v fuel usage answers s info).last = some p →
      Sufficient jobs (result v (sortedByJob cfg v (decayed cfg usage) info.queues) p).capacityEvents) :
    Covers jobs ids := by
  by_cases empty : ids = []
  · rw [empty]
    exact le_refl (0 : Int)
  have known : ∀ id ∈ ids, ∃ job, jobs.lookup id = some job := by
    intro id member
    obtain ⟨job, found, -⟩ := mem_queuedIn.mp (part.subset member)
    exact ⟨job, found⟩
  have tells := tells_bare (F := F) part
  have sorted := sortJobs_perm {} (.at 0) (decayed {} (∅ : Assoc F)) (recordsOf jobs ids)
  generalize records : sortJobs {} (.at 0) (decayed {} (∅ : Assoc F)) (recordsOf jobs ids) = left at sorted
  have named : ∀ j ∈ left, j.queue = name ∧ j.canNotRun = false := by
    intro j member
    have shown : j ∈ recordsOf jobs ids := sorted.mem_iff.mp member
    refine ⟨(tells.lookup List.mem_cons_self shown).2.1, ?_⟩
    obtain ⟨job, order, -, -, -, parsed⟩ := tells.recorded _ List.mem_cons_self j shown
    rw [parsed]
    exact (JobInfo.parseJobInfo_kept _).2
  have queues : sortedByJob {} (.at 0) (decayed {} (∅ : Assoc F)) [bareQueue name (recordsOf jobs ids)] =
      [bareQueue name left] := by
    rw [← records]
    rfl
  have run : ∃ q, courseOver {} false (.at 0) (left.length + 1) (∅ : Assoc F) (.const true)
      (fromEmpty []) { queues := [bareQueue name (recordsOf jobs ids)], nodes := [] } =
      ⟨left.map (·, .blocked), some q⟩ := by
    rw [courseOver, queues]
    exact course_bare named rfl rfl (Nat.lt_succ_self _)
  obtain ⟨q, run⟩ := run
  have sufficient := always {} (.at 0) _ ∅ (.const true) (fromEmpty []) _ q tells (by rw [run])
  have pending : q.pendingCap =
      (left.map (·, .blocked)).foldl (demandAfter [bareQueue name left]) ∅ := by
    rw [courseOver, queues] at run
    have all := course_pendingCap (congrArg Course.last run)
    rwa [run] at all
  have all : unplaced (left.map (·, .blocked)) name = left := by
    rw [unplaced, List.filter_eq_self.mpr (by simpa using fun j member => (named j member).1),
      List.map_map]
    exact List.map_id left
  have found : cloudQueue [bareQueue name left] name = some (bareQueue name left) := by
    simp [cloudQueue, queueForJob, bareQueue]
  have ordered : (left.map (·.id)).Perm ids := by
    rw [← map_recordsOf known]
    exact sorted.map _
  have filled : left ≠ [] := by
    rintro rfl
    exact empty (List.nil_perm.mp ordered)
  have covers := (sufficient _ ((mem_capacityEvents (queues ▸ pending)).mpr
    ⟨name, bareQueue name left, queues ▸ found, by rwa [all], rfl⟩)).2
  rw [all, event_covers_iff fun j member =>
    (tells.lookup List.mem_cons_self (sorted.mem_iff.mp member)).2.2] at covers
  exact covers.perm ordered

end Events

theorem nodup_jobObjects (v : View) (s : Server) :
    (((jobObjects v s).map parseJobInfo).map (·.id)).Nodup := by
  have keys : (s.jobMgr.jobs.keys.insertionSort (· ≤ ·)).Nodup :=
    (List.perm_insertionSort _ _).nodup_iff.mpr s.jobMgr.jobs.nodupKeys
  have id {name : String} {obj : StatusObject} (shown : (s.jobMgr.jobs.lookup name).map
      (·.status name (v.jobEnv.order .resources)) = some obj) : (parseJobInfo obj).id = name := by
    obtain ⟨job, -, rfl⟩ := Option.map_eq_some_iff.mp shown
    exact (JobInfo.parseJobInfo_kept _).1
  rw [List.map_map, List.Nodup, List.pairwise_map, jobObjects, List.pairwise_filterMap]
  refine keys.imp fun differ obj shown other found same => differ ?_
  exact (id shown).symm.trans (same.trans (id found))

theorem nodup_queueInfos (v : View) (s : Server) : ((queueInfos v s).map (·.name)).Nodup := by
  have named {name : String} {obj : StatusObject} (shown : ((counted v s).queueMgr.lookup name).map
      (·.status name (v.queueEnv.order .resources)) = some obj) : (parseQueueInfo obj).name = name := by
    obtain ⟨queue, -, rfl⟩ := Option.map_eq_some_iff.mp shown
    exact QueueInfo.parseQueueInfo_name _
  rw [queueInfos, List.map_map, List.Nodup, List.pairwise_map, Server.queueObjects,
    List.pairwise_filterMap]
  refine (Assoc.nodup_range (v.queueEnv.order .anyQueue) s.queueMgr).imp
    fun differ obj shown other found same => differ ?_
  exact (named shown).symm.trans (same.trans (named found))

theorem tells_queryServer {F : Type} (cfg : Config) (v : View) (s : Server) (nodes : List (NodeInfo F)) :
    Tells s.jobMgr.jobs { queues := sortedQueues cfg v (queueInfos v s), nodes } where
  recorded q listed j member := by
    have shown := (mem_sortedQueues _ q).mp listed
    obtain ⟨job, found, queued, queue, -⟩ := queued_of_mem_queueInfos shown member
    obtain ⟨job', known, parsed⟩ := (recorded_of_mem_queueInfos shown member).lookup
    obtain rfl : job = job' := Option.some.inj (found.symm.trans known)
    exact ⟨job, _, found, queued, queue, parsed⟩
  distinct q listed := by
    obtain ⟨obj, -, rfl⟩ := List.mem_map.mp ((mem_sortedQueues _ q).mp listed)
    exact (nodup_jobObjects v (counted v s)).sublist (List.filter_sublist.map _)
  named := by
    have sorted : ((sortedQueues cfg v (queueInfos v s)).map (·.name)).Perm
        ((queueInfos v s).map (·.name)) := by
      unfold sortedQueues
      split
      · exact (v.slices.perm _ _).map _
      · exact List.Perm.refl _
    exact sorted.nodup_iff.mpr (nodup_queueInfos v s)

/-- The events of every full cycle over some of those jobs are one for each cloud queue, name its
jobs without a node and cover their charges exactly if in each queue every single job asks the
scheduler for what it is charged and all demands together are an `int`. -/
theorem capacity_events_iff {F : Type} [GoFloat F] (jobs : Assoc Job) :
    (∀ (cfg : Config) (v : View) (fuel : Nat) (usage : Assoc F) (answers : Stream' Bool) (s : Server)
      (info : ServerInfo F) (p : Progress F), Tells jobs info →
      (courseOver cfg false v fuel usage answers s info).last = some p →
      Exact (sortedByJob cfg v (decayed cfg usage) info.queues)
        (courseOver cfg false v fuel usage answers s info).trace
        (result v (sortedByJob cfg v (decayed cfg usage) info.queues) p).capacityEvents ∧
      Sufficient jobs (result v (sortedByJob cfg v (decayed cfg usage) info.queues) p).capacityEvents) ↔
    ∀ name, (∀ id ∈ queuedIn jobs name, chargeOf jobs id ≤ demandOf jobs id) ∧
      ((queuedIn jobs name).map (demandOf jobs)).sum ≤ maxInt := by
  have sums (name : String) : (∀ ids : List String, ids.Sublist (queuedIn jobs name) → Covers jobs ids) ↔ _ :=
    sums_covered_iff (queuedIn jobs name) (fun _ => chargeOf_pos) fun id _ => demandOf_fits jobs id
  constructor
  · intro always name
    refine (sums name).mp fun ids part => covers_of_sufficient (F := F) part ?_
    intro cfg v fuel usage answers s info p tells ended
    exact (always cfg v fuel usage answers s info p tells ended).2
  · intro condition cfg v fuel usage answers s info p tells ended
    have pending := course_pendingCap ended
    exact ⟨exact_result pending, sufficient_of_covers tells (courseOver_subperm ..) pending
      fun name => (sums name).mpr (condition name)⟩

/-- A queue of cloud nodes and a job that asks for two nodes of two processors. -/
def cloudState : Server := fromEmpty (atOnce [
  .manager (.createQueue "cloud" [{ name := "cloud_provider", value := "azure" }]),
  .queueJob "alice@host" "cloud"
    [{ name := "Resource_List", resc := "nodes", hasResc := true, value := "2:ppn=2" }],
  .commit "0.server"])

/-- The event asks for one processor where the server will charge four. -/
theorem cores_below_charge :
    (runCycle {} false (.at 2) 9 (∅ : Assoc Unit) cloudState).map
      (fun out => out.result.capacityEvents.map fun ev => (ev.queue, ev.jobs, ev.cores)) =
      some [("cloud", ["0.server"], 1)] ∧
    chargeOf cloudState.jobMgr.jobs "0.server" = 4 := by
  decide +kernel

end OpenTorque.Sched
