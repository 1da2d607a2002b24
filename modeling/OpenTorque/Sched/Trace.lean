import Mathlib.Data.Stream.Init
import OpenTorque.Sched.JobOrder

/-! What becomes of each job in a cycle. The server is a pattern of answers here, one for each
request of the cycle; a cycle against a server is the cycle against the answers it gives. -/
namespace OpenTorque.Sched
open Pbs

/-- What became of a job that the iterator has yielded. -/
inductive Fate where
  | blocked | rejected | started
  deriving DecidableEq, Repr

/-- The jobs of a cycle in the order of their turns, and the variables of the loop if it has
ended. -/
structure Course (F : Type) where
  trace : List (JobInfo × Fate)
  last : Option (Progress F)

def Course.after {F : Type} (entry : JobInfo × Fate) (rest : Course F) : Course F :=
  { rest with trace := entry :: rest.trace }

section Loop
variable {F : Type} [GoFloat F]

/-- The part of a turn for one job, with the answers to come. -/
def face (cfg : Config) (limited : Bool) (queues : List QueueInfo) (answers : Stream' Bool)
    (p : Progress F) (j : JobInfo) : Fate × Turn F × Stream' Bool :=
  match findNodeForJob cfg { queues, nodes := p.nodes } j with
  | none => (.blocked, blocked cfg queues p j, answers)
  | some node =>
    if answers.head then (.started, started cfg limited p node.name j, answers.tail)
    else (.rejected, .go p, answers.tail)

/-- The main loop against those answers; the server is left as it is. -/
def course (cfg : Config) (limited : Bool) (v : View) (queues : List QueueInfo) :
    Nat → Nat → Stream' Bool → Progress F → Course F
  | 0, _, _, _ => ⟨[], none⟩
  | fuel + 1, attempt, answers, p =>
    if exhausted cfg limited v attempt then ⟨[], some p⟩
    else
      match p.jobs.next (fuel + 1) with
      | none => ⟨[], none⟩
      | some (none, jobs) => ⟨[], some { p with jobs }⟩
      | some (some j, jobs) =>
        match face cfg limited queues answers { p with jobs } j with
        | (fate, .stop q, _) => ⟨[(j, fate)], some q⟩
        | (fate, .go q, later) => (course cfg limited v queues fuel (attempt + 1) later q).after (j, fate)

/-- A cycle over a snapshot, against those answers. -/
def courseOver (cfg : Config) (limited : Bool) (v : View) (fuel : Nat) (usage : Assoc F)
    (answers : Stream' Bool) (s : Server) (info : ServerInfo F) : Course F :=
  let usage := decayed cfg usage
  let queues := sortedByJob cfg v usage info.queues
  course cfg limited v queues fuel 0 answers
    { server := s, nodes := info.nodes, jobs := newJobIterator cfg queues, usage }

variable {cfg : Config} {limited : Bool} {v : View} {queues : List QueueInfo} {answers : Stream' Bool}
  {p q : Progress F} {j : JobInfo} {fuel attempt : Nat}

/-- What the scheduler did with one job, and on which answer. -/
theorem face_cases {fate : Fate} {after : Turn F} {later : Stream' Bool}
    (faced : face cfg limited queues answers p j = (fate, after, later)) :
    (fate = .blocked ∧ later = answers ∧ after = blocked cfg queues p j) ∨
      (fate = .rejected ∧ answers.head = false ∧ later = answers.tail ∧ after = .go p) ∨
      (fate = .started ∧ answers.head = true ∧ later = answers.tail ∧
        ∃ name, after = started cfg limited p name j) := by
  rw [face] at faced
  cases found : findNodeForJob cfg { queues, nodes := p.nodes } j with
  | none =>
    rw [found] at faced
    cases faced
    exact .inl ⟨rfl, rfl, rfl⟩
  | some node =>
    rw [found] at faced
    dsimp only at faced
    cases answer : answers.head with
    | false =>
      rw [answer, if_neg Bool.false_ne_true] at faced
      cases faced
      exact .inr (.inl ⟨rfl, rfl, rfl, rfl⟩)
    | true =>
      rw [answer, if_pos rfl] at faced
      cases faced
      exact .inr (.inr ⟨rfl, rfl, rfl, node.name, rfl⟩)

theorem face_jobs {fate : Fate} {later : Stream' Bool}
    (faced : face cfg limited queues answers p j = (fate, .go q, later)) : q.jobs = p.jobs := by
  obtain ⟨-, -, after⟩ | ⟨-, -, -, after⟩ | ⟨-, -, -, name, after⟩ := face_cases faced
  · have same := (blocked_progress cfg queues p j).2.2
    rwa [← after] at same
  · cases after
    rfl
  · have same := (started_progress cfg limited p name j).2.2
    rwa [← after] at same

/-- The variables of the loop beside another server. -/
abbrev Progress.facing (p : Progress F) (s : Server) : Progress F := p.map (fun _ => s) id

abbrev Turn.facing (s : Server) : Turn F → Turn F := Turn.map (fun _ => s) id

/-- A job faces the server as it faces the answer that the server gives. -/
theorem consider_eq_face (cfg : Config) (limited : Bool) (queues : List QueueInfo) (env : Env)
    (p : Progress F) (j : JobInfo) : ∃ (t : Server) (fate : Fate) (after : Turn F),
    consider cfg limited queues env p j = after.facing t ∧
      ∀ later : Stream' Bool, ∃ answers, ∀ s,
        face cfg limited queues answers (p.facing s) j = (fate, after.facing s, later) := by
  unfold consider face
  cases found : findNodeForJob cfg { queues, nodes := p.nodes } j with
  | none =>
    refine ⟨p.server, .blocked, blocked cfg queues p j, ?_, fun later => ⟨later, fun s => ?_⟩⟩
    · exact blocked_map (fun _ => p.server) id cfg queues p j
    · dsimp only [Progress.facing, Progress.map]
      rw [found]
      exact congrArg (Fate.blocked, ·, later) (blocked_map (fun _ => s) id cfg queues p j)
  | some node =>
    dsimp only
    generalize p.server.handle env (.runJob j.id (node.name ++ "/0")) = answered
    by_cases granted : answered.reply = .ok
    · refine ⟨answered.server, .started, started cfg limited p node.name j, ?_, fun later => ⟨.cons true later, fun s => ?_⟩⟩
      · rw [if_pos granted]
        exact started_map (fun _ => answered.server) id cfg limited p node.name j
      · dsimp only [Progress.facing, Progress.map]
        rw [found]
        exact congrArg (Fate.started, ·, later) (started_map (fun _ => s) id cfg limited p node.name j)
    · refine ⟨answered.server, .rejected, .go p, ?_, fun later => ⟨.cons false later, fun s => ?_⟩⟩
      · rw [if_neg granted]
        rfl
      · dsimp only [Progress.facing, Progress.map]
        rw [found]
        rfl

/-- The loop with a server is a course with some answers. -/
theorem loop_eq_course (cfg : Config) (limited : Bool) (v : View) (queues : List QueueInfo)
    (fuel attempt : Nat) (p : Progress F) : ∃ answers t, ∀ s,
    loop cfg limited v queues fuel attempt p =
      (course cfg limited v queues fuel attempt answers (p.facing s)).last.map (·.facing t) := by
  induction fuel generalizing attempt p with
  | zero => exact ⟨.const true, p.server, fun s => rfl⟩
  | succ fuel ih =>
    simp only [loop, turn, course]
    by_cases beyond : exhausted cfg limited v attempt = true
    · exact ⟨.const true, p.server, fun s => by simp only [if_pos beyond]; rfl⟩
    simp only [if_neg beyond, Progress.map_jobs, id]
    cases called : p.jobs.next (fuel + 1) with
    | none => exact ⟨.const true, p.server, fun s => rfl⟩
    | some found =>
      obtain ⟨job, jobs⟩ := found
      cases job with
      | none => exact ⟨.const true, p.server, fun s => rfl⟩
      | some j =>
        obtain ⟨t, fate, after, considered, faced⟩ := consider_eq_face cfg limited queues
          (v.runEnv attempt) { p with jobs } j
        dsimp only [Option.map_some]
        rw [considered]
        cases after with
        | stop q =>
          obtain ⟨answers, face⟩ := faced (.const true)
          refine ⟨answers, t, fun s => ?_⟩
          rw [show { p.facing s with jobs } = ({ p with jobs } : Progress F).facing s from rfl, face s]
          rfl
        | go q =>
          obtain ⟨later, u, run⟩ := ih (attempt + 1) (q.facing t)
          obtain ⟨answers, face⟩ := faced later
          refine ⟨answers, u, fun s => ?_⟩
          rw [show { p.facing s with jobs } = ({ p with jobs } : Progress F).facing s from rfl, face s]
          exact run s

def StartsPrefix (trace : List (JobInfo × Fate)) : Prop :=
  ∃ front back, trace = front ++ back ∧ (∀ entry ∈ front, entry.2 = .started) ∧
    ∀ entry ∈ back, entry.2 ≠ .started

theorem StartsPrefix.cons {trace : List (JobInfo × Fate)} (rest : StartsPrefix trace) (j : JobInfo) :
    StartsPrefix ((j, .started) :: trace) := by
  obtain ⟨front, back, rfl, started, others⟩ := rest
  exact ⟨(j, .started) :: front, back, rfl, by simpa using started, others⟩

theorem StartsPrefix.of_none {trace : List (JobInfo × Fate)}
    (none : ∀ entry ∈ trace, entry.2 ≠ .started) : StartsPrefix trace :=
  ⟨[], trace, rfl, by simp, none⟩

theorem StartsPrefix.get {turns : List (JobInfo × Fate)} (starts : StartsPrefix turns) {i k : Nat}
    (before : i < k) {a b : JobInfo} {fate : Fate} (first : turns[i]? = some (a, fate))
    (second : turns[k]? = some (b, .started)) : fate = .started := by
  obtain ⟨front, back, rfl, started, others⟩ := starts
  have inside : k < front.length := by
    by_contra outside
    rw [List.getElem?_append_right (not_lt.mp outside)] at second
    exact others _ (List.mem_of_getElem? second) rfl
  rw [List.getElem?_append_left (before.trans inside)] at first
  exact started _ (List.mem_of_getElem? first)

theorem none_started (rejects : ∀ k, answers.get k = false) :
    ∀ entry ∈ (course cfg limited v queues fuel attempt answers p).trace, entry.2 ≠ .started := by
  fun_induction course cfg limited v queues fuel attempt answers p with
  | case1 | case2 | case3 | case4 => simp
  | case5 _ _ _ _ _ j jobs _ fate q later faced =>
    obtain ⟨rfl, -⟩ | ⟨rfl, -⟩ | ⟨-, accepted, -⟩ := face_cases faced
    · simp
    · simp
    · exact absurd (rejects 0) (by simpa [Stream'.head] using accepted)
  | case6 _ _ _ _ _ j jobs _ fate q later faced ih =>
    obtain ⟨rfl, rfl, -⟩ | ⟨rfl, -, rfl, -⟩ | ⟨-, accepted, -⟩ := face_cases faced
    · exact List.forall_mem_cons.mpr ⟨Fate.noConfusion, ih rejects⟩
    · exact List.forall_mem_cons.mpr ⟨Fate.noConfusion, ih fun k => rejects (k + 1)⟩
    · exact absurd (rejects 0) (by simpa [Stream'.head] using accepted)

omit [GoFloat F] in
theorem blocked_strict (strict : cfg.strictStop = true) (local_ : ∀ q ∈ queues, q.cloudBacked = false)
    (p : Progress F) (j : JobInfo) : blocked cfg queues p j = .stop p := by
  have none : (queueForJob queues j.queue).filter (·.cloudBacked) = none := by
    rw [Option.filter_eq_none_iff]
    intro q found
    simp [local_ q (List.mem_of_find?_eq_some found)]
  rw [blocked, none]
  exact if_pos strict

/-- No request is accepted after one that was rejected. -/
def NoneAfterRejection (answers : Stream' Bool) : Prop :=
  ∀ i k, i < k → answers.get k = true → answers.get i = true

theorem startsPrefix_course (strict : cfg.strictStop = true)
    (local_ : ∀ q ∈ queues, q.cloudBacked = false) (pattern : NoneAfterRejection answers) :
    StartsPrefix (course cfg limited v queues fuel attempt answers p).trace := by
  fun_induction course cfg limited v queues fuel attempt answers p with
  | case1 | case2 | case3 | case4 => exact .of_none (by simp)
  | case5 _ _ _ _ _ j jobs _ fate q later faced =>
    cases fate with
    | started => exact .cons (.of_none (by simp)) j
    | blocked | rejected => exact .of_none (by simp)
  | case6 _ answers _ _ _ j jobs _ fate q later faced ih =>
    obtain ⟨-, -, stopped⟩ | ⟨rfl, rejected, rfl, -⟩ | ⟨rfl, -, rfl, -⟩ := face_cases faced
    · rw [blocked_strict strict local_] at stopped
      cases stopped
    · refine .of_none (List.forall_mem_cons.mpr ⟨Fate.noConfusion, none_started fun k => ?_⟩)
      by_contra accepted
      have first := pattern 0 (k + 1) (by omega) (by simpa using accepted)
      simp [Stream'.head, first] at rejected
    · exact (ih fun i k before accepted => pattern (i + 1) (k + 1) (by omega) accepted).cons j

omit [GoFloat F] in
theorem open_of_untyped {q : QueueInfo} (enabled : q.enabled = true) (started : q.started = true)
    (untyped : q.type = "") : q.open = true := by
  have local_ : isRouteQueue q = false := by
    rw [isRouteQueue, untyped]
    decide
  rw [QueueInfo.open, enabled, started, local_]
  rfl

/-! A snapshot on which every request is made: no job ever fills the node. -/

/-- A job that asks for the smallest number of processors there is. -/
def lightJob : JobInfo := { id := "1.server", queue := "batch", cpuReq := minInt }

def lightQueue (count : Nat) : QueueInfo :=
  { name := "batch", jobs := List.replicate count lightJob }

def lightNode (cpus : Int) (jobs : List String) : NodeInfo F :=
  { name := "n1", state := "free", freeCPUs := cpus, loadAvg := GoFloat.zero, jobs }

def strictConfig : Config := { strictFIFO := true, backfill := false, helpStarvingJobs := false }

theorem findNodeForJob_light (count : Nat) {cpus : Int} (jobs : List String) (low : minInt ≤ cpus) :
    findNodeForJob strictConfig ({ queues := [lightQueue count], nodes := [lightNode cpus jobs] } :
      ServerInfo F) lightJob = some (lightNode cpus jobs) := by
  have fits : admissible [lightQueue count] lightJob (lightNode cpus jobs : NodeInfo F) = true := by
    simp [admissible, nodeSchedulable, queueForJob, queueNodeOK, nodeHasGRes, lightQueue, lightJob,
      lightNode, exclusivePolicies]
  have demand : lightJob.demand ≤ cpus := low
  have single : candidates { queues := [lightQueue count], nodes := [lightNode cpus jobs] }
      lightJob = [(lightNode cpus jobs : NodeInfo F)] := by
    rw [candidates, List.filter_singleton, fits, decide_eq_true (show _ ≤ (lightNode cpus jobs : NodeInfo F).freeCPUs from demand)]
    rfl
  rw [findNodeForJob, if_neg (by simp [tooFewNodes, lightJob]), single]
  rfl

theorem next_light (left fuel : Nat) : (⟨.byQueue, [lightQueue (left + 1)], 0⟩ : JobIterator).next fuel =
    some (some lightJob, ⟨.byQueue, [lightQueue left], 0⟩) := by
  have opened : (lightQueue (left + 1)).open = true := open_of_untyped rfl rfl rfl
  have taken : JobIterator.take (lightQueue (left + 1)) = some (lightJob, lightQueue left) := rfl
  simp [JobIterator.next, JobIterator.nextInOrder, opened, taken]

/-- Each of the requests is made, whatever the answers to those before it. -/
theorem trace_light (count left : Nat) {cpus : Int} {jobs : List String} (low : minInt ≤ cpus)
    (nodes : p.nodes = [lightNode cpus jobs]) (pending : p.jobs = ⟨.byQueue, [lightQueue left], 0⟩)
    (enough : left < fuel) :
    (course strictConfig false v [lightQueue count] fuel attempt answers p).trace =
      (List.range left).map fun k => (lightJob, if answers.get k then .started else .rejected) := by
  induction left generalizing fuel attempt answers p cpus jobs with
  | zero =>
    obtain ⟨fuel, rfl⟩ := Nat.exists_eq_add_of_lt enough
    have next : p.jobs.next (0 + fuel + 1) = some (none, ⟨.byQueue, [], 0⟩) := by
      have opened : (lightQueue 0).open = true := open_of_untyped rfl rfl rfl
      have taken : JobIterator.take (lightQueue 0) = none := rfl
      simp [pending, JobIterator.next, JobIterator.nextInOrder, opened, taken]
    rw [course, if_neg (by simp [exhausted]), next]
    rfl
  | succ left ih =>
    obtain ⟨fuel, rfl⟩ := Nat.exists_eq_add_of_lt enough
    have next := next_light left (left + 1 + fuel + 1)
    rw [← pending] at next
    have found := findNodeForJob_light (F := F) count jobs low
    rw [course, if_neg (by simp [exhausted]), next, List.range_succ_eq_map, List.map_cons,
      List.map_map]
    dsimp only
    rw [face, nodes, found]
    dsimp only
    cases answer : answers.head with
    | false =>
      have first : answers.get 0 = false := answer
      rw [if_neg Bool.false_ne_true, first, if_neg Bool.false_ne_true]
      exact congrArg _ (ih low rfl rfl (by omega))
    | true =>
      have first : answers.get 0 = true := answer
      rw [if_pos rfl, first, if_pos rfl]
      exact congrArg _ (ih (wrap64_fits (cpus - minInt)).1 rfl rfl (by omega))

theorem startsPrefix_light (pattern : ∀ count, StartsPrefix (courseOver strictConfig false (.at 0)
      (count + 1) (∅ : Assoc F) answers (fromEmpty []) { queues := [lightQueue count], nodes := [lightNode 0 []] }).trace) :
    NoneAfterRejection answers := by
  intro i k before accepted
  have light : (courseOver strictConfig false (.at 0) (k + 1 + 1) (∅ : Assoc F) answers (fromEmpty [])
      { queues := [lightQueue (k + 1)], nodes := [lightNode 0 []] }).trace =
      (List.range (k + 1)).map fun k =>
        (lightJob, if answers.get k then .started else .rejected) := by
    have sorted : sortJobs strictConfig (.at 0) (decayed strictConfig (∅ : Assoc F))
        (List.replicate (k + 1) lightJob) = List.replicate (k + 1) lightJob :=
      List.perm_replicate.mp (sortJobs_perm _ _ _ _)
    have queues : sortedByJob strictConfig (.at 0) (decayed strictConfig (∅ : Assoc F))
        [lightQueue (k + 1)] = [lightQueue (k + 1)] := by
      rw [sortedByJob, List.map_singleton]
      exact congrArg (fun jobs => [{ lightQueue (k + 1) with jobs }]) sorted
    rw [courseOver, queues]
    exact trace_light (k + 1) (k + 1) (by decide) rfl rfl (by omega)
  have starts := pattern (k + 1)
  rw [light] at starts
  by_contra rejected
  have wrong := starts.get before (a := lightJob) (b := lightJob) (by
    rw [List.getElem?_map, List.getElem?_range (by omega)]
    rfl) (by
    rw [List.getElem?_map, List.getElem?_range (by omega), Option.map_some, if_pos accepted])
  rw [if_neg rejected] at wrong
  cases wrong

end Loop

theorem runCycle_eq_courseOver {F : Type} [GoFloat F] (cfg : Config) (limited : Bool) (v : View) (fuel : Nat)
    (usage : Assoc F) (s : Server) : ∃ answers t, runCycle cfg limited v fuel usage s =
      (courseOver cfg limited v fuel usage answers (counted v s) {
        queues := sortedQueues cfg v (queueInfos v s)
        nodes := nodesOf (counted v s) v.nodeEnv }).last.map fun p =>
        { server := t, usage := p.usage, result := result v (cycleQueues cfg v usage s) p } := by
  obtain ⟨answers, t, same⟩ := loop_eq_course cfg limited v (cycleQueues cfg v usage s) fuel 0
    (.first cfg v usage s)
  refine ⟨answers, t, ?_⟩
  rw [runCycle_eq, same (counted v s), Option.map_map]
  rfl

/-- With strict order and no backfill the jobs started in a cycle come first, whatever the
snapshot, exactly if the server accepts no request after it has rejected one. -/
theorem strict_fifo_prefix_iff {F : Type} [GoFloat F] (answers : Stream' Bool) :
    (∀ (cfg : Config) (limited : Bool) (v : View) (fuel : Nat) (usage : Assoc F) (s : Server)
      (info : ServerInfo F), cfg.strictFIFO = true → cfg.backfill = false →
      (∀ q ∈ info.queues, q.cloudBacked = false) →
      StartsPrefix (courseOver cfg limited v fuel usage answers s info).trace) ↔
    NoneAfterRejection answers := by
  constructor
  · intro always
    exact startsPrefix_light fun count => always _ _ _ _ _ _ _ rfl rfl (by simp [lightQueue])
  · intro pattern cfg limited v fuel usage s info strict backfill local_
    refine startsPrefix_course (by simp [Config.strictStop, strict, backfill]) ?_ pattern
    intro q member
    obtain ⟨r, listed, rfl⟩ := List.mem_map.mp member
    exact local_ r listed

/-- The first job is rejected and the one after it is started. -/
theorem started_after_rejected :
    (courseOver strictConfig false (.at 0) 3 (∅ : Assoc Unit) (.cons false (.const true)) (fromEmpty [])
      { queues := [{ name := "batch", jobs :=
          [{ id := "1.server", queue := "batch" }, { id := "2.server", queue := "batch" }] }],
        nodes := [{ name := "n1", state := "free", freeCPUs := 2, loadAvg := () }] }).trace.map
          (fun entry => (entry.1.id, entry.2)) =
      [("1.server", .rejected), ("2.server", .started)] := by
  decide +kernel

end OpenTorque.Sched
