import Mathlib.Data.List.Perm.Subperm
import OpenTorque.Sched.Placement

/-! The rules for reasoning about a whole cycle: what the snapshot holds, an invariant
rule for the main loop, and how much fuel the loop needs. -/
namespace OpenTorque.Sched
open Pbs

namespace JobIterator

def pending (queues : List QueueInfo) : List JobInfo := queues.flatMap (·.jobs)

@[simp] theorem pending_cons (q : QueueInfo) (queues : List QueueInfo) :
    pending (q :: queues) = q.jobs ++ pending queues := rfl

/-- What a call of the iterator does to the jobs to come. -/
structure Shrinks (before after : List QueueInfo) (job : Option JobInfo) : Prop where
  kept : ∀ j ∈ pending after, j ∈ pending before
  taken : ∀ j ∈ job, j ∈ pending before
  fewer : (pending after).length + job.toList.length ≤ (pending before).length

/-- The jobs before a call are, in some order, the job it yields and those after it, with some
that are passed over. -/
abbrev Draws (before after : List QueueInfo) (job : Option JobInfo) : Prop :=
  (job.toList ++ pending after).Subperm (pending before)

theorem nextInOrder_draws (queues : List QueueInfo) :
    Draws queues (nextInOrder queues).2 (nextInOrder queues).1 := by
  induction queues with
  | nil => exact List.Subperm.refl _
  | cons q queues ih =>
    have skipped : Draws (q :: queues) (nextInOrder queues).2 (nextInOrder queues).1 :=
      ih.trans (List.sublist_append_right _ _).subperm
    rw [nextInOrder]
    split
    · cases found : q.jobs.dropWhile (·.canNotRun) with
      | nil => simpa only [take, found] using skipped
      | cons j rest =>
        simp only [take, found]
        have suffix : j :: rest <:+ q.jobs := found ▸ List.dropWhile_suffix _
        exact (suffix.sublist.append (List.Sublist.refl (pending queues))).subperm
    · exact skipped

theorem set_draws {queues : List QueueInfo} {j : JobInfo} {rest : List JobInfo} {q : QueueInfo}
    {i : Nat}     (here : queues[i]? = some q) (jobs : q.jobs = j :: rest) :
    (j :: pending (queues.set i { q with jobs := rest })).Perm (pending queues) := by
  induction queues generalizing i with
  | nil => simp at here
  | cons first queues ih =>
    cases i with
    | zero =>
      obtain rfl : first = q := by simpa using here
      simp [jobs]
    | succ i =>
      rw [List.set_cons_succ, pending_cons, pending_cons]
      exact List.perm_middle.symm.trans ((ih (by simpa using here)).append_left _)

theorem visit_draws (queues : List QueueInfo) (i : Nat) :
    Draws queues (visit queues i).2 (visit queues i).1 := by
  rw [visit]
  split
  · exact List.Subperm.refl _
  case h_2 q here =>
    split
    · split
      · exact List.Subperm.refl _
      case h_2 j rest jobs =>
        have taken := set_draws here jobs
        split
        · exact (List.sublist_cons_self _ _).subperm.trans taken.subperm
        · exact taken.subperm
    · exact List.Subperm.refl _

theorem round_draws (attempts : Nat) (queues : List QueueInfo) (qIdx : Nat) :
    Draws queues (round attempts (queues, qIdx)).2.1 (round attempts (queues, qIdx)).1 := by
  induction attempts generalizing queues qIdx with
  | zero => exact List.Subperm.refl _
  | succ attempts ih =>
    have once := visit_draws queues (qIdx % queues.length)
    rw [round]
    split
    case h_1 visited => rwa [visited] at once
    case h_2 visited =>
      rw [visited] at once
      exact (ih _ _).trans once

theorem nextRoundRobin_draws {fuel : Nat} {queues rest : List QueueInfo} {qIdx next : Nat}
    {job : Option JobInfo}
    (found : nextRoundRobin fuel (queues, qIdx) = some (job, rest, next)) : Draws queues rest job := by
  induction fuel generalizing queues qIdx with
  | zero => cases found
  | succ fuel ih =>
    have once := round_draws queues.length queues qIdx
    rw [nextRoundRobin] at found
    split at found
    case h_1 visited =>
      rw [visited] at once
      cases found
      exact once
    case h_2 visited =>
      rw [visited] at once
      split at found
      · cases found
        exact once
      · exact (ih found).trans once

theorem next_draws {fuel : Nat} {it rest : JobIterator} {job : Option JobInfo}
    (found : it.next fuel = some (job, rest)) :
    Draws it.queues rest.queues job := by
  rw [next] at found
  split at found
  · obtain ⟨⟨job', queues, qIdx⟩, called, same⟩ := Option.map_eq_some_iff.mp found
    cases same
    exact nextRoundRobin_draws called
  all_goals
    cases found
    exact nextInOrder_draws _

theorem next_shrinks {fuel : Nat} {it rest : JobIterator} {job : Option JobInfo}
    (found : it.next fuel = some (job, rest)) : Shrinks it.queues rest.queues job where
  kept _ member := (next_draws found).subset (List.mem_append_right _ member)
  taken _ member := (next_draws found).subset (List.mem_append_left _ (by simpa using member))
  fewer := by
    have less := (next_draws found).length_le
    rw [List.length_append] at less
    omega

/-- A round-robin iterator comes back: jobs are only to come in open queues, and none of
them is marked. -/
def Live (queues : List QueueInfo) : Prop :=
  ∀ q ∈ queues, ∀ j ∈ q.jobs, q.open = true ∧ j.canNotRun = false

section RoundRobin
variable {queues rest : List QueueInfo} {job : Option JobInfo}

section
variable (live : Live queues)
include live

theorem Live.visit (i : Nat) : Live (JobIterator.visit queues i).2 := by
  rw [JobIterator.visit]
  split
  · exact live
  case h_2 q here =>
    split
    · split
      · exact live
      case h_2 first rest jobs =>
        intro r member j listed
        rcases List.mem_or_eq_of_mem_set member with old | rfl
        · exact live r old j listed
        · exact live q (List.mem_of_getElem? here) j (by rw [jobs]; exact List.mem_cons_of_mem _ listed)
    · exact live

theorem Live.round (attempts qIdx : Nat) :
    Live (JobIterator.round attempts (queues, qIdx)).2.1 := by
  induction attempts generalizing queues qIdx with
  | zero => exact live
  | succ attempts ih =>
    have once := live.visit (qIdx % queues.length)
    rw [JobIterator.round]
    split
    case h_1 visited => rwa [visited] at once
    case h_2 visited =>
      rw [visited] at once
      exact ih once _

/-- A visit that finds nothing stands at an empty queue. -/
theorem Live.visit_none {i : Nat}
    (missed : JobIterator.visit queues i = (none, rest)) :
    rest = queues ∧ ∀ q, queues[i]? = some q → q.jobs = [] := by
  rw [JobIterator.visit] at missed
  cases here : queues[i]? with
  | none =>
    rw [here] at missed
    cases missed
    exact ⟨rfl, by simp⟩
  | some q =>
    rw [here] at missed
    cases jobs : q.jobs with
    | nil =>
      simp only [jobs, ite_self] at missed
      cases missed
      exact ⟨rfl, fun r same => Option.some.inj same ▸ jobs⟩
    | cons j later =>
      obtain ⟨open_, unmarked⟩ := live q (List.mem_of_getElem? here) j (by simp [jobs])
      simp [open_, jobs, unmarked] at missed

theorem Live.round_none {attempts qIdx next : Nat}
    (missed : JobIterator.round attempts (queues, qIdx) = (none, rest, next)) :
    rest = queues ∧ ∀ k < attempts, ∀ q, queues[(qIdx + k) % queues.length]? = some q → q.jobs = [] := by
  induction attempts generalizing qIdx with
  | zero =>
    cases missed
    exact ⟨rfl, by simp⟩
  | succ attempts ih =>
    rw [JobIterator.round] at missed
    split at missed
    · cases missed
    case h_2 visited =>
      obtain ⟨rfl, here⟩ := live.visit_none visited
      obtain ⟨same, later⟩ := ih missed
      refine ⟨same, fun k less => ?_⟩
      cases k with
      | zero => simpa using here
      | succ k =>
        have next := later k (by omega)
        rwa [Nat.add_assoc, Nat.add_comm 1 k] at next

/-- A round that finds nothing has seen every queue. -/
theorem Live.round_empty {qIdx next : Nat}
    (missed : JobIterator.round queues.length (queues, qIdx) = (none, rest, next)) :
    rest.all (·.jobs.isEmpty) = true := by
  obtain ⟨rfl, seen⟩ := live.round_none missed
  simp only [List.all_eq_true, List.isEmpty_iff]
  intro q member
  obtain ⟨i, inside, rfl⟩ := List.mem_iff_getElem.mp member
  -- the attempt whose turn falls on queue `i`
  have turn : (qIdx + (i + (rest.length - qIdx % rest.length)) % rest.length) % rest.length = i := by
    have bound := Nat.mod_lt qIdx (Nat.zero_lt_of_lt inside)
    rw [Nat.add_mod_mod]
    have shape : qIdx + (i + (rest.length - qIdx % rest.length)) =
        i + rest.length * (qIdx / rest.length + 1) := by
      have parts := Nat.div_add_mod qIdx rest.length
      rw [Nat.mul_add, Nat.mul_one]
      omega
    rw [shape, Nat.add_mul_mod_self_left, Nat.mod_eq_of_lt inside]
  have less := Nat.mod_lt (i + (rest.length - qIdx % rest.length)) (Nat.zero_lt_of_lt inside)
  exact seen _ less rest[i] (by rw [turn, List.getElem?_eq_getElem inside])

theorem Live.nextRoundRobin (fuel qIdx : Nat) :
    ∃ job rest next, JobIterator.nextRoundRobin (fuel + 1) (queues, qIdx) = some (job, rest, next) ∧
      Live rest := by
  have kept := live.round queues.length qIdx
  rw [JobIterator.nextRoundRobin]
  rcases found : JobIterator.round queues.length (queues, qIdx) with ⟨_ | j, rest, next⟩
  · rw [found] at kept
    simp only [live.round_empty found, if_true]
    exact ⟨none, rest, next, rfl, kept⟩
  · rw [found] at kept
    exact ⟨some j, rest, next, rfl, kept⟩

end

end RoundRobin

/-- The iterator comes back at every call. -/
def Ends (it : JobIterator) : Prop := it.mode = .roundRobin → Live it.queues

theorem Ends.next {it : JobIterator} (ends : it.Ends) (fuel : Nat) :
    ∃ job rest, it.next (fuel + 1) = some (job, rest) ∧ rest.Ends := by
  cases mode : it.mode with
  | roundRobin =>
    obtain ⟨job, rest, next, found, live⟩ := (ends mode).nextRoundRobin fuel it.qIdx
    refine ⟨job, { it with queues := rest, qIdx := next }, ?_, fun _ => live⟩
    simp [JobIterator.next, mode, found]
  | byQueue | flat =>
    refine ⟨(nextInOrder it.queues).1, { it with queues := (nextInOrder it.queues).2 }, ?_, ?_⟩
    · simp [JobIterator.next, mode]
    · intro same
      simp [mode] at same

end JobIterator

section Loop
variable {F : Type} [GoFloat F] {cfg : Config} {limited : Bool} {v : View} {queues : List QueueInfo}
  {p p' : Progress F} {j : JobInfo} {env : Env}

def debited (nodes : List (NodeInfo F)) (name : String) (j : JobInfo) : List (NodeInfo F) :=
  nodes.map fun n => if n.name = name then n.debit j else n

def runRequest (j : JobInfo) (node : NodeInfo F) : Request := .runJob j.id (node.name ++ "/0")

/-- The server and the records after one job. -/
inductive Considered (cfg : Config) (queues : List QueueInfo) (env : Env) (s : Server)
    (nodes : List (NodeInfo F)) (j : JobInfo) : Server → List (NodeInfo F) → Prop where
  | skipped : Considered cfg queues env s nodes j s nodes
  | refused (node : NodeInfo F) (chosen : findNodeForJob cfg { queues, nodes } j = some node)
      (answer : (s.handle env (runRequest j node)).reply ≠ .ok) :
      Considered cfg queues env s nodes j (s.handle env (runRequest j node)).server nodes
  | accepted (node : NodeInfo F) (chosen : findNodeForJob cfg { queues, nodes } j = some node)
      (answer : (s.handle env (runRequest j node)).reply = .ok) :
      Considered cfg queues env s nodes j (s.handle env (runRequest j node)).server
        (debited nodes node.name j)

omit [GoFloat F] in
theorem blocked_progress {J : Type} (cfg : Config) (queues : List QueueInfo) (p : Progress F J)
    (j : JobInfo) :
    (blocked cfg queues p j).progress.server = p.server ∧
      (blocked cfg queues p j).progress.nodes = p.nodes ∧
      (blocked cfg queues p j).progress.jobs = p.jobs := by
  rw [blocked]
  split
  · exact ⟨rfl, rfl, rfl⟩
  · split <;> exact ⟨rfl, rfl, rfl⟩

theorem started_progress {J : Type} (cfg : Config) (limited : Bool) (p : Progress F J)
    (name : String) (j : JobInfo) :
    (started cfg limited p name j).progress.server = p.server ∧
      (started cfg limited p name j).progress.nodes = debited p.nodes name j ∧
      (started cfg limited p name j).progress.jobs = p.jobs := by
  rw [started]
  split
  · exact ⟨rfl, rfl, rfl⟩
  · split <;> exact ⟨rfl, rfl, rfl⟩

/-- The variables of the loop beside another server and with another iterator. -/
@[simps]
def Progress.map {J K : Type} (g : Server → Server) (f : J → K) (p : Progress F J) : Progress F K :=
  { p with server := g p.server, jobs := f p.jobs }

def Turn.map {J K : Type} (g : Server → Server) (f : J → K) : Turn F J → Turn F K
  | .go p => .go (p.map g f)
  | .stop p => .stop (p.map g f)

omit [GoFloat F] in
theorem blocked_map {J K : Type} (g : Server → Server) (f : J → K) (cfg : Config)
    (queues : List QueueInfo) (p : Progress F J) (j : JobInfo) :
    blocked cfg queues (p.map g f) j = (blocked cfg queues p j).map g f := by
  unfold blocked
  cases (queueForJob queues j.queue).filter (·.cloudBacked) with
  | some q => rfl
  | none => cases cfg.strictStop <;> rfl

theorem started_map {J K : Type} (g : Server → Server) (f : J → K) (cfg : Config) (limited : Bool)
    (p : Progress F J) (name : String) (j : JobInfo) :
    started cfg limited (p.map g f) name j = (started cfg limited p name j).map g f := by
  unfold started
  dsimp only [Progress.map]
  split
  · rfl
  · split <;> rfl

theorem consider_considered {J : Type} (cfg : Config) (limited : Bool) (queues : List QueueInfo)
    (env : Env) (p : Progress F J) (j : JobInfo) :
    Considered cfg queues env p.server p.nodes j
        (consider cfg limited queues env p j).progress.server
        (consider cfg limited queues env p j).progress.nodes ∧
      (consider cfg limited queues env p j).progress.jobs = p.jobs := by
  rw [consider]
  split
  · obtain ⟨server, nodes, jobs⟩ := blocked_progress cfg queues p j
    rw [server, nodes]
    exact ⟨.skipped, jobs⟩
  case h_2 node chosen =>
    simp only
    split
    case isTrue answer =>
      obtain ⟨server, nodes, jobs⟩ := started_progress cfg limited
        { p with server := (p.server.handle env (runRequest j node)).server } node.name j
      refine ⟨?_, jobs⟩
      rw [show Request.runJob j.id (node.name ++ "/0") = runRequest j node from rfl, server, nodes]
      exact .accepted node chosen answer
    case isFalse answer => exact ⟨.refused node chosen answer, rfl⟩

/-- A turn considers one of the jobs to come or leaves the server and the records alone. -/
theorem turn_considered {fuel attempt : Nat} {after : Turn F}
    (turned : turn cfg limited v queues fuel attempt p = some after) :
    (∀ j ∈ JobIterator.pending after.progress.jobs.queues, j ∈ JobIterator.pending p.jobs.queues) ∧
      ((after.progress.server = p.server ∧ after.progress.nodes = p.nodes) ∨
        ∃ j ∈ JobIterator.pending p.jobs.queues, Considered cfg queues (v.runEnv attempt) p.server p.nodes
          j after.progress.server after.progress.nodes) := by
  rw [turn] at turned
  split at turned
  · cases turned
    exact ⟨fun _ member => member, .inl ⟨rfl, rfl⟩⟩
  obtain ⟨⟨job, rest⟩, called, same⟩ := Option.map_eq_some_iff.mp turned
  have shrinks := JobIterator.next_shrinks called
  subst same
  cases job with
  | none => exact ⟨shrinks.kept, .inl ⟨rfl, rfl⟩⟩
  | some j =>
    obtain ⟨considered, later⟩ := consider_considered cfg limited queues (v.runEnv attempt)
      { p with jobs := rest } j
    refine ⟨?_, .inr ⟨j, shrinks.taken j rfl, considered⟩⟩
    simp only [later]
    exact shrinks.kept

/-- The invariant rule of the main loop, for facts about the server and the records that
hold for whatever job comes next. -/
theorem loop_preserves {I : Server → List (NodeInfo F) → Prop} {wanted : List JobInfo}
    (step : ∀ env s nodes j s' nodes', j ∈ wanted → I s nodes →
      Considered cfg queues env s nodes j s' nodes' → I s' nodes')
    {fuel attempt : Nat} (jobs : ∀ j ∈ JobIterator.pending p.jobs.queues, j ∈ wanted)
    (holds : I p.server p.nodes) (ended : loop cfg limited v queues fuel attempt p = some p') :
    I p'.server p'.nodes := by
  induction fuel generalizing attempt p with
  | zero => cases ended
  | succ fuel ih =>
    rw [loop] at ended
    cases turned : turn cfg limited v queues (fuel + 1) attempt p with
    | none =>
      rw [turned] at ended
      cases ended
    | some after =>
      obtain ⟨fewer, happened⟩ := turn_considered turned
      have kept : I after.progress.server after.progress.nodes := by
        rcases happened with ⟨server, nodes⟩ | ⟨j, member, considered⟩
        · rw [server, nodes]
          exact holds
        · exact step _ _ _ _ _ _ (jobs j member) holds considered
      rw [turned] at ended
      cases after with
      | stop p =>
        cases ended
        exact kept
      | go p => exact ih (fun j member => jobs j (fewer j member)) kept ended

/-- The loop ends once every job has had its turn. -/
theorem loop_ends (ends : p.jobs.Ends) {fuel : Nat} (attempt : Nat)
    (enough : (JobIterator.pending p.jobs.queues).length < fuel) :
    ∃ p', loop cfg limited v queues fuel attempt p = some p' := by
  induction fuel generalizing attempt p with
  | zero => exact absurd enough (Nat.not_lt_zero _)
  | succ fuel ih =>
    rw [loop, turn]
    by_cases beyond : exhausted cfg limited v attempt
    · exact ⟨p, by rw [if_pos beyond]⟩
    obtain ⟨job, rest, called, still⟩ := ends.next fuel
    have shrinks := JobIterator.next_shrinks called
    rw [if_neg beyond, called]
    cases job with
    | none => exact ⟨_, rfl⟩
    | some j =>
      obtain ⟨-, same⟩ := consider_considered cfg limited queues (v.runEnv attempt)
        { p with jobs := rest } j
      simp only [Option.map_some]
      cases result : consider cfg limited queues (v.runEnv attempt) { p with jobs := rest } j with
      | stop after => exact ⟨after, rfl⟩
      | go after =>
        rw [result] at same
        have later : after.jobs = rest := same
        have less := shrinks.fewer
        simp only [Option.toList_some, List.length_singleton] at less
        exact ih (by rwa [later]) (attempt + 1) (by rw [later]; omega)

end Loop

section Snapshot
variable {F : Type} [GoFloat F] {cfg : Config} {v : View} {s : Server} {j : JobInfo}

/-- The server once it has answered the first request of a cycle. -/
def counted (v : View) (s : Server) : Server := (s.handle v.queueEnv (.statusQueue "")).server

theorem counted_managers (v : View) (s : Server) :
    (counted v s).jobMgr = s.jobMgr ∧ (counted v s).nodeMgr = s.nodeMgr := by
  have kept : ∀ names : List String, (names.foldl Server.refreshQueueCounts s).jobMgr = s.jobMgr ∧
      (names.foldl Server.refreshQueueCounts s).nodeMgr = s.nodeMgr := by
    intro names
    exact List.foldlRecOn
      (motive := fun t : Server => t.jobMgr = s.jobMgr ∧ t.nodeMgr = s.nodeMgr) names _ ⟨rfl, rfl⟩
      fun t same name _ => same
  exact kept _

def jobObjects (v : View) (s : Server) : List StatusObject :=
  (s.jobMgr.jobs.keys.insertionSort (· ≤ ·)).filterMap fun id =>
    (s.jobMgr.jobs.lookup id).map (·.status id (v.jobEnv.order .resources))

def queueInfos (v : View) (s : Server) : List QueueInfo :=
  ((counted v s).queueObjects v.queueEnv (s.queueMgr.range (v.queueEnv.order .anyQueue))).map
    fun obj => { parseQueueInfo obj with jobs := jobsOfQueue (jobObjects v (counted v s)) obj.name }

theorem queryServer_eq (cfg : Config) (v : View) (s : Server) :
    (queryServer cfg v s : Server × Option (ServerInfo F)) = (counted v s, some
      { queues := sortedQueues cfg v (queueInfos v s),
        nodes := nodesOf (counted v s) v.nodeEnv }) := rfl

def cycleQueues (cfg : Config) (v : View) (usage : Assoc F) (s : Server) : List QueueInfo :=
  sortedByJob cfg v (decayed cfg usage) (sortedQueues cfg v (queueInfos v s))

/-- The variables of the main loop before its first turn. -/
@[simps server nodes jobs]
def Progress.first (cfg : Config) (v : View) (usage : Assoc F) (s : Server) : Progress F where
  server := counted v s
  nodes := nodesOf (counted v s) v.nodeEnv
  jobs := newJobIterator cfg (cycleQueues cfg v usage s)
  usage := decayed cfg usage

theorem runCycle_eq (cfg : Config) (limited : Bool) (v : View) (fuel : Nat) (usage : Assoc F)
    (s : Server) : runCycle cfg limited v fuel usage s =
      (loop cfg limited v (cycleQueues cfg v usage s) fuel 0 (.first cfg v usage s)).map
        fun p => { server := p.server, usage := p.usage,
                   result := result v (cycleQueues cfg v usage s) p } := by
  rw [runCycle, queryServer_eq]
  rfl

theorem mem_sortJobs (usage : Assoc F) (jobs : List JobInfo) :
    j ∈ sortJobs cfg v usage jobs ↔ j ∈ jobs := by
  have sorted : j ∈ v.slices.sort (before cfg.sortBy usage) jobs ↔ j ∈ jobs :=
    (v.slices.perm _ _).mem_iff
  rw [sortJobs]
  split
  · rw [List.mem_append, List.mem_filter, List.mem_filter, ← sorted]
    cases starving cfg v.now j <;> simp
  · exact sorted

theorem mem_sortedQueues (queues : List QueueInfo) (q : QueueInfo) :
    q ∈ sortedQueues cfg v queues ↔ q ∈ queues := by
  rw [sortedQueues]
  split
  · exact (v.slices.perm _ _).mem_iff
  · exact Iff.rfl

/-- A queue of the main loop is one of the snapshot with its jobs sorted. -/
theorem mem_cycleQueues {usage : Assoc F} {q : QueueInfo} (member : q ∈ cycleQueues cfg v usage s) :
    ∃ r ∈ queueInfos v s, q = { r with jobs := sortJobs cfg v (decayed cfg usage) r.jobs } := by
  obtain ⟨r, listed, rfl⟩ := List.mem_map.mp member
  exact ⟨r, (mem_sortedQueues _ r).mp listed, rfl⟩

theorem mem_jobObjects {obj : StatusObject} (member : obj ∈ jobObjects v s) :
    ∃ id job, s.jobMgr.jobs.lookup id = some job ∧
      obj = job.status id (v.jobEnv.order .resources) := by
  obtain ⟨id, -, found⟩ := List.mem_filterMap.mp member
  obtain ⟨job, lookup, rfl⟩ := Option.map_eq_some_iff.mp found
  exact ⟨id, job, lookup, rfl⟩

/-- The job is the scheduler's record of a job of the server. -/
def Recorded (v : View) (s : Server) (j : JobInfo) : Prop :=
  ∃ id job, s.jobMgr.jobs.lookup id = some job ∧
    j = parseJobInfo (job.status id (v.jobEnv.order .resources))

theorem recorded_of_mem_queueInfos {q : QueueInfo} (member : q ∈ queueInfos v s) (listed : j ∈ q.jobs) :
    Recorded v s j := by
  obtain ⟨obj, -, rfl⟩ := List.mem_map.mp member
  obtain ⟨parsed, -⟩ := List.mem_filter.mp listed
  obtain ⟨object, known, rfl⟩ := List.mem_map.mp parsed
  obtain ⟨id, job, lookup, rfl⟩ := mem_jobObjects known
  rw [(counted_managers v s).1] at lookup
  exact ⟨id, job, lookup, rfl⟩

/-- Under round-robin every queue with queued jobs must be open: the iterator calls itself
until all queues are empty, and skips the closed ones. -/
def Terminating (cfg : Config) (v : View) (s : Server) : Prop :=
  cfg.roundRobin = true → ∀ q ∈ queueInfos v s, q.jobs ≠ [] → q.open = true

theorem Recorded.canNotRun (recorded : Recorded v s j) : j.canNotRun = false := by
  obtain ⟨id, job, -, same⟩ := recorded
  rw [same]
  exact (JobInfo.parseJobInfo_kept _).2

theorem Recorded.lookup (recorded : Recorded v s j) : ∃ job, s.jobMgr.jobs.lookup j.id = some job ∧
    j = parseJobInfo (job.status j.id (v.jobEnv.order .resources)) := by
  obtain ⟨id, job, found, same⟩ := recorded
  have named : j.id = id := by
    rw [same]
    exact (JobInfo.parseJobInfo_kept _).1
  rw [named]
  exact ⟨job, found, same⟩

/-- Enough fuel for every job of the snapshot ends the cycle. -/
theorem runCycle_ends (terminating : Terminating cfg v s) (limited : Bool) (usage : Assoc F) :
    ∃ enough, ∀ fuel ≥ enough, ∃ out, runCycle cfg limited v fuel usage s = some out := by
  refine ⟨(JobIterator.pending (cycleQueues cfg v usage s)).length + 1, fun fuel more => ?_⟩
  have ends : (newJobIterator cfg (cycleQueues cfg v usage s)).Ends := by
    intro mode q member j listed
    have robin : cfg.roundRobin = true := by
      by_contra off
      have other : cfg.mode = .roundRobin := mode
      rw [Config.mode, if_neg off] at other
      split at other <;> cases other
    obtain ⟨r, known, rfl⟩ := mem_cycleQueues member
    have here : j ∈ r.jobs := (mem_sortJobs _ _).mp listed
    have open_ := terminating robin r known (List.ne_nil_of_mem here)
    exact ⟨open_, (recorded_of_mem_queueInfos known here).canNotRun⟩
  obtain ⟨p, looped⟩ : ∃ p, loop cfg limited v (cycleQueues cfg v usage s) fuel 0
      (.first cfg v usage s) = some p := loop_ends ends 0 more
  rw [runCycle_eq, looped]
  exact ⟨_, rfl⟩

end Snapshot

end OpenTorque.Sched
