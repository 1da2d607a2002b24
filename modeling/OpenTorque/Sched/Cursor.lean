import OpenTorque.Core.Rotation
import OpenTorque.Sched.Loop

/-! The iterator as the scheduler has it: indices into the queues of the snapshot, in which the
loop marks every job that finds no node. What the cursor still has to pass is a `JobIterator`,
a mark is only ever set on a job that it has passed, and nothing else reads the marks. -/
namespace OpenTorque.Sched
open Pbs (Env Server)

/-- A queue of the snapshot and the index of its next job. -/
structure Slot where
  queue : QueueInfo
  jIdx : Nat := 0

namespace Slot

def pass (x : Slot) : Slot := { x with jIdx := x.jIdx + 1 }

/-- `CanNotRun` is set on the job at that index. -/
def mark (i : Nat) (x : Slot) : Slot :=
  { x with queue := { x.queue with jobs := x.queue.jobs.modify i ({ · with canNotRun := true }) } }

/-- The queue with the jobs that are still to come. -/
def rest (x : Slot) : QueueInfo := { x.queue with jobs := x.queue.jobs.drop x.jIdx }

@[simp] theorem open_rest (x : Slot) : x.rest.open = x.queue.open := rfl

theorem rest_cons {x : Slot} (left : x.jIdx < x.queue.jobs.length) :
    x.rest.jobs = x.queue.jobs[x.jIdx] :: x.pass.rest.jobs := List.drop_eq_getElem_cons left

theorem rest_nil {x : Slot} (none : ¬ x.jIdx < x.queue.jobs.length) : x.rest.jobs = [] :=
  List.drop_eq_nil_of_le (Nat.not_lt.mp none)

theorem take_marked {x : Slot} (left : x.jIdx < x.queue.jobs.length)
    (marked : x.queue.jobs[x.jIdx].canNotRun = true) :
    JobIterator.take x.rest = JobIterator.take x.pass.rest := by
  rw [JobIterator.take, rest_cons left, List.dropWhile_cons_of_pos marked]
  rfl

theorem take_unmarked {x : Slot} (left : x.jIdx < x.queue.jobs.length)
    (unmarked : ¬ x.queue.jobs[x.jIdx].canNotRun = true) :
    JobIterator.take x.rest = some (x.queue.jobs[x.jIdx], x.pass.rest) := by
  rw [JobIterator.take, rest_cons left, List.dropWhile_cons_of_neg unmarked]
  rfl

end Slot

/-- A job of the snapshot and where it stands: its queue's index and its own. -/
structure Found where
  queue : Nat
  index : Nat
  job : JobInfo

structure Cursor where
  mode : Mode
  slots : List Slot
  qIdx : Nat := 0

namespace Cursor

def newJobIterator (cfg : Config) (queues : List QueueInfo) : Cursor where
  mode := cfg.mode
  slots := queues.map ({ queue := · })

def queues (c : Cursor) : List QueueInfo := c.slots.map (·.queue)

def pass (c : Cursor) (k : Nat) : Cursor := { c with slots := c.slots.modify k Slot.pass }

def mark (c : Cursor) (f : Found) : Cursor :=
  { c with slots := c.slots.modify f.queue (Slot.mark f.index) }

/-- `nextByQueue` and `nextFlat`. -/
def nextInOrder (c : Cursor) : Option Found × Cursor :=
  if inside : c.qIdx < c.slots.length then
    let x := c.slots[c.qIdx]
    if x.queue.open then
      if left : x.jIdx < x.queue.jobs.length then
        let j := x.queue.jobs[x.jIdx]
        if j.canNotRun then nextInOrder (c.pass c.qIdx)
        else (some ⟨c.qIdx, x.jIdx, j⟩, c.pass c.qIdx)
      else nextInOrder { c with qIdx := c.qIdx + 1 }
    else nextInOrder { c with qIdx := c.qIdx + 1 }
  else (none, c)
termination_by (c.slots.length - c.qIdx, (c.slots[c.qIdx]?).elim 0 (·.rest.jobs.length))
decreasing_by
  · rw [show (c.pass c.qIdx).slots.length = c.slots.length from List.length_modify ..]
    refine .right _ ?_
    have left : c.slots[c.qIdx].jIdx < c.slots[c.qIdx].queue.jobs.length := left
    simp [pass, inside, Slot.rest, Slot.pass]
    omega
  · exact .left _ _ (by omega)
  · exact .left _ _ (by omega)

/-- One attempt of `nextRoundRobin`. -/
def visit (c : Cursor) : Option Found × Cursor :=
  let k := c.qIdx % c.slots.length
  let c := { c with qIdx := c.qIdx + 1 }
  match c.slots[k]? with
  | none => (none, c)
  | some x =>
    if x.queue.open then
      match x.queue.jobs[x.jIdx]? with
      | none => (none, c)
      | some j => (if j.canNotRun then none else some ⟨k, x.jIdx, j⟩, c.pass k)
    else (none, c)

def round : Nat → Cursor → Option Found × Cursor
  | 0, c => (none, c)
  | attempts + 1, c =>
    match c.visit with
    | (some f, c) => (some f, c)
    | (none, c) => round attempts c

def nextRoundRobin : Nat → Cursor → Option (Option Found × Cursor)
  | 0, _ => none
  | fuel + 1, c =>
    match c.round c.slots.length with
    | (some f, c) => some (some f, c)
    | (none, c) =>
      if c.slots.all fun x => x.queue.jobs.length ≤ x.jIdx then some (none, c)
      else nextRoundRobin fuel c

def next (fuel : Nat) (c : Cursor) : Option (Option Found × Cursor) :=
  match c.mode with
  | .roundRobin => nextRoundRobin fuel c
  | .byQueue | .flat => some c.nextInOrder

/-- The queues with the jobs that are still to come. -/
def rests (c : Cursor) : List QueueInfo := c.slots.map Slot.rest

/-- What the cursor has still to pass. -/
def view (c : Cursor) : JobIterator where
  mode := c.mode
  queues := if c.mode = .roundRobin then c.rests else c.rests.drop c.qIdx
  qIdx := if c.mode = .roundRobin then c.qIdx else 0

theorem view_newJobIterator (cfg : Config) (queues : List QueueInfo) :
    (newJobIterator cfg queues).view = Sched.newJobIterator cfg queues := by
  have rests : (newJobIterator cfg queues).rests = queues := by
    rw [Cursor.rests, newJobIterator, List.map_map]
    exact List.map_id _
  rw [view, rests, newJobIterator, Sched.newJobIterator]
  simp

section Next
variable {c d : Cursor} {x : Slot} {j : JobInfo} {k : Nat}

@[simp] theorem length_rests (c : Cursor) : c.rests.length = c.slots.length := List.length_map _

theorem getElem?_rests (slot : c.slots[k]? = some x) : c.rests[k]? = some x.rest := by
  rw [rests, List.getElem?_map, slot, Option.map_some]

theorem drop_rests (slot : c.slots[k]? = some x) : c.rests.drop k = x.rest :: c.rests.drop (k + 1) := by
  obtain ⟨inside, same⟩ := List.getElem?_eq_some_iff.mp (getElem?_rests slot)
  rw [List.drop_eq_getElem_cons inside, same]

theorem rests_pass (slot : c.slots[k]? = some x) : (c.pass k).rests = c.rests.set k x.pass.rest := by
  simp [rests, pass, List.modify_eq_set_getElem?, slot, List.map_set]

theorem drop_rests_pass (slot : c.slots[k]? = some x) :
    (c.pass k).rests.drop k = x.pass.rest :: c.rests.drop (k + 1) := by
  have slot' : (c.pass k).slots[k]? = some x.pass := by simp [pass, slot]
  rw [drop_rests slot', rests_pass slot, List.drop_set_of_lt (Nat.lt_succ_self k)]

theorem nextInOrder_view (c : Cursor) : JobIterator.nextInOrder (c.rests.drop c.qIdx) =
    (c.nextInOrder.1.map (·.job), c.nextInOrder.2.rests.drop c.nextInOrder.2.qIdx) := by
  fun_induction nextInOrder c with
  | case1 c inside x opened left j marked ih =>
    have slot : c.slots[c.qIdx]? = some x := List.getElem?_eq_getElem inside
    rw [show (c.pass c.qIdx).qIdx = c.qIdx from rfl, drop_rests_pass slot] at ih
    rw [← ih, drop_rests slot, JobIterator.nextInOrder, Slot.take_marked left marked]
    rfl
  | case2 c inside x opened left j fresh =>
    have slot : c.slots[c.qIdx]? = some x := List.getElem?_eq_getElem inside
    rw [show (c.pass c.qIdx).qIdx = c.qIdx from rfl, drop_rests_pass slot, drop_rests slot,
      JobIterator.nextInOrder, Slot.open_rest, if_pos opened, Slot.take_unmarked left fresh]
    rfl
  | case3 c inside x opened none ih =>
    rw [drop_rests (List.getElem?_eq_getElem inside), JobIterator.nextInOrder, Slot.open_rest,
      if_pos opened, JobIterator.take, Slot.rest_nil none]
    exact ih
  | case4 c inside x closed ih =>
    rw [drop_rests (List.getElem?_eq_getElem inside), JobIterator.nextInOrder, Slot.open_rest,
      if_neg closed]
    exact ih
  | case5 c outside =>
    rw [List.drop_eq_nil_of_le (by simpa using outside)]
    rfl

theorem visit_view (c : Cursor) : JobIterator.visit c.rests (c.qIdx % c.rests.length) =
    (c.visit.1.map (·.job), c.visit.2.rests) := by
  rw [length_rests, JobIterator.visit]
  fun_cases visit c with
  | case1 k d slot =>
    have outside : c.rests[k]? = none := by simpa [d] using slot
    rw [outside]
    rfl
  | case2 k d x slot opened none =>
    rw [getElem?_rests (c := c) slot]
    dsimp only
    rw [Slot.open_rest, if_pos opened, Slot.rest_nil (by simpa using none)]
    rfl
  | case3 k d x slot opened j job =>
    obtain ⟨left, rfl⟩ := List.getElem?_eq_some_iff.mp job
    rw [getElem?_rests (c := c) slot, rests_pass slot]
    dsimp only
    rw [Slot.open_rest, if_pos opened, Slot.rest_cons left, apply_ite (Option.map _)]
    rfl
  | case4 k d x slot closed =>
    rw [getElem?_rests (c := c) slot]
    dsimp only
    rw [Slot.open_rest, if_neg closed]
    rfl

theorem qIdx_visit (c : Cursor) : c.visit.2.qIdx = c.qIdx + 1 := by
  fun_cases visit c <;> rfl

theorem round_view (attempts : Nat) (c : Cursor) : JobIterator.round attempts (c.rests, c.qIdx) =
    ((c.round attempts).1.map (·.job), (c.round attempts).2.rests, (c.round attempts).2.qIdx) := by
  fun_induction round attempts c with
  | case1 c => rfl
  | case2 attempts c f d visited =>
    have turn := qIdx_visit c
    rw [JobIterator.round, visit_view, ← turn, visited]
    rfl
  | case3 attempts c d visited ih =>
    have turn := qIdx_visit c
    rw [JobIterator.round, visit_view, ← turn, visited]
    exact ih

theorem all_rests (c : Cursor) : c.rests.all (·.jobs.isEmpty) =
    c.slots.all fun x => x.queue.jobs.length ≤ x.jIdx := by
  rw [rests, List.all_map]
  refine List.all_congr rfl fun x => ?_
  rw [Bool.eq_iff_iff]
  simp [Slot.rest]

theorem nextRoundRobin_view (fuel : Nat) (c : Cursor) :
    JobIterator.nextRoundRobin fuel (c.rests, c.qIdx) =
      (c.nextRoundRobin fuel).map fun r => (r.1.map (·.job), r.2.rests, r.2.qIdx) := by
  fun_induction nextRoundRobin fuel c with
  | case1 c => rfl
  | case2 fuel c f d rounded =>
    rw [JobIterator.nextRoundRobin, length_rests, round_view, rounded]
    rfl
  | case3 fuel c d rounded done =>
    rw [JobIterator.nextRoundRobin, length_rests, round_view, rounded]
    dsimp only [Option.map_none]
    rw [all_rests, if_pos done]
    rfl
  | case4 fuel c d rounded more ih =>
    rw [JobIterator.nextRoundRobin, length_rests, round_view, rounded]
    dsimp only [Option.map_none]
    rw [all_rests, if_neg more]
    exact ih

/-- What a call of the iterator leaves: the mode, the snapshot, and a job that it yields
behind the index of its queue. -/
structure Moves (c : Cursor) (found : Option Found) (d : Cursor) : Prop where
  mode : d.mode = c.mode
  queues : d.queues = c.queues
  passed : ∀ f ∈ found, ∀ x, d.slots[f.queue]? = some x → f.index < x.jIdx

theorem Moves.stay (c : Cursor) (qIdx : Nat) : c.Moves none { c with qIdx } := ⟨rfl, rfl, by simp⟩

theorem Moves.pass (slot : c.slots[k]? = some x) (j : JobInfo) :
    c.Moves (some ⟨k, x.jIdx, j⟩) (c.pass k) := by
  refine ⟨rfl, Rotation.map_modify_of_fixed fun _ _ => rfl, ?_⟩
  rintro f ⟨⟩ y moved
  have here : y = x.pass := by simpa [Cursor.pass, slot, eq_comm] using moved
  rw [here]
  exact Nat.lt_succ_self _

theorem Moves.skip (moves : c.Moves found d) : c.Moves none d :=
  ⟨moves.mode, moves.queues, by simp⟩

theorem Moves.after (first : c.Moves none d) (more : d.Moves found e) : c.Moves found e :=
  ⟨more.mode.trans first.mode, more.queues.trans first.queues, more.passed⟩

theorem nextInOrder_moves (c : Cursor) : c.Moves c.nextInOrder.1 c.nextInOrder.2 := by
  fun_induction nextInOrder c with
  | case1 c inside x opened left j marked ih =>
    exact (Moves.pass (List.getElem?_eq_getElem inside) j).skip.after ih
  | case2 c inside x opened left j fresh =>
    exact Moves.pass (List.getElem?_eq_getElem inside) j
  | case3 c inside x opened none ih => exact (Moves.stay c _).after ih
  | case4 c inside x closed ih => exact (Moves.stay c _).after ih
  | case5 c outside => exact Moves.stay c c.qIdx

theorem visit_moves (c : Cursor) : c.Moves c.visit.1 c.visit.2 := by
  fun_cases visit c with
  | case1 k d slot => exact Moves.stay c _
  | case2 k d x slot opened none => exact Moves.stay c _
  | case3 k d x slot opened j job =>
    have moves : c.Moves (some ⟨k, x.jIdx, j⟩) (d.pass k) := (Moves.stay c _).after (.pass slot j)
    dsimp only
    split
    · exact moves.skip
    · exact moves
  | case4 k d x slot closed => exact Moves.stay c _

theorem round_moves (attempts : Nat) (c : Cursor) :
    c.Moves (c.round attempts).1 (c.round attempts).2 := by
  fun_induction round attempts c with
  | case1 c => exact Moves.stay c c.qIdx
  | case2 attempts c f d visited =>
    have moves := visit_moves c
    rwa [visited] at moves
  | case3 attempts c d visited ih =>
    have moves := visit_moves c
    rw [visited] at moves
    exact moves.after ih

theorem nextRoundRobin_moves {fuel : Nat} {found : Option Found}
    (called : c.nextRoundRobin fuel = some (found, d)) : c.Moves found d := by
  fun_induction nextRoundRobin fuel c with
  | case1 c => cases called
  | case2 fuel c f e rounded =>
    have moves := round_moves c.slots.length c
    cases called
    rwa [rounded] at moves
  | case3 fuel c e rounded done =>
    have moves := round_moves c.slots.length c
    cases called
    rwa [rounded] at moves
  | case4 fuel c e rounded more ih =>
    have moves := round_moves c.slots.length c
    rw [rounded] at moves
    exact moves.after (ih called)

theorem next_moves {fuel : Nat} {found : Option Found} (called : c.next fuel = some (found, d)) :
    c.Moves found d := by
  rw [next] at called
  cases mode : c.mode with
  | roundRobin =>
    rw [mode] at called
    exact nextRoundRobin_moves called
  | byQueue | flat =>
    rw [mode] at called
    have moves := nextInOrder_moves c
    rwa [Option.some.inj called] at moves

theorem next_view (fuel : Nat) (c : Cursor) :
    c.view.next fuel = (c.next fuel).map fun r => (r.1.map (·.job), r.2.view) := by
  have same : ∀ r ∈ c.next fuel, r.2.mode = c.mode := fun r called => (next_moves called).mode
  rw [next] at same ⊢
  rw [JobIterator.next, show c.view.mode = c.mode from rfl]
  cases mode : c.mode with
  | roundRobin =>
    rw [mode] at same
    dsimp only at same ⊢
    rw [view, mode, if_pos rfl, if_pos rfl, nextRoundRobin_view, Option.map_map]
    refine Option.map_congr fun r called => ?_
    simp [view, same r called]
  | byQueue | flat =>
    rw [mode] at same
    simp [view, mode, nextInOrder_view, same c.nextInOrder rfl]

/-- The mark on a job that has been passed is not seen. -/
theorem view_mark {f : Found} (passed : ∀ x, c.slots[f.queue]? = some x → f.index < x.jIdx) :
    (c.mark f).view = c.view := by
  have rests : (c.mark f).rests = c.rests := by
    refine Rotation.map_modify_of_fixed fun x slot => ?_
    rw [Slot.rest, Slot.rest, Slot.mark, List.drop_modify_of_lt _ _ _ _ (passed x slot)]
  rw [view, view, rests]
  rfl

end Next
end Cursor

/-! Nothing but the iterator reads the marks. -/

def QueueInfo.unmarked (q : QueueInfo) : QueueInfo :=
  { q with jobs := q.jobs.map ({ · with canNotRun := false }) }

theorem Cursor.unmarked_mark (c : Cursor) (f : Found) :
    (c.mark f).queues.map QueueInfo.unmarked = c.queues.map QueueInfo.unmarked := by
  rw [Cursor.queues, Cursor.queues, List.map_map, List.map_map]
  refine Rotation.map_modify_of_fixed fun x _ => ?_
  have jobs : (x.queue.jobs.modify f.index ({ · with canNotRun := true })).map
      ({ · with canNotRun := false : JobInfo }) = x.queue.jobs.map ({ · with canNotRun := false }) :=
    Rotation.map_modify_of_fixed fun _ _ => rfl
  simp only [Function.comp_apply, Slot.mark, QueueInfo.unmarked, jobs]

section Marks
variable {F J : Type} [GoFloat F] (cfg : Config) (limited : Bool) (env : Env) (queues : List QueueInfo)
  (p : Progress F J) (j : JobInfo)

theorem queueForJob_unmarked (name : String) : queueForJob (queues.map QueueInfo.unmarked) name =
    (queueForJob queues name).map QueueInfo.unmarked := by
  rw [queueForJob, List.find?_map]
  rfl

omit [GoFloat F] in
theorem admissible_unmarked : admissible (F := F) (queues.map QueueInfo.unmarked) j =
    admissible queues j := by
  funext n
  rw [admissible, admissible, queueForJob_unmarked]
  cases queueForJob queues j.queue <;> rfl

theorem findNodeForJob_unmarked (nodes : List (NodeInfo F)) :
    findNodeForJob cfg { queues := queues.map QueueInfo.unmarked, nodes } j =
      findNodeForJob cfg { queues, nodes } j := by
  unfold findNodeForJob tooFewNodes countSchedulableForJob candidates
  rw [admissible_unmarked]

omit [GoFloat F] in
theorem blocked_unmarked : blocked cfg (queues.map QueueInfo.unmarked) p j = blocked cfg queues p j := by
  rw [blocked, blocked, queueForJob_unmarked]
  cases queueForJob queues j.queue with
  | none => rfl
  | some q => cases cloud : q.cloudBacked <;> simp [Option.filter, QueueInfo.unmarked, cloud, addDemand]

theorem consider_unmarked : consider cfg limited (queues.map QueueInfo.unmarked) env p j =
    consider cfg limited queues env p j := by
  rw [consider, consider, findNodeForJob_unmarked, blocked_unmarked]

omit [GoFloat F] in
theorem result_unmarked (v : View) :
    result v (queues.map QueueInfo.unmarked) p = result v queues p := by
  have byQueue : queuedByQueue (queues.map QueueInfo.unmarked) = queuedByQueue queues := by
    unfold queuedByQueue
    rw [List.filter_map, List.foldl_map]
    simp only [QueueInfo.unmarked, List.foldl_map]
    rfl
  have ids : (queues.map QueueInfo.unmarked).flatMap (fun q => q.jobs.map (·.id)) =
      queues.flatMap fun q => q.jobs.map (·.id) := by
    simp [List.flatMap_map, QueueInfo.unmarked, Function.comp_def]
  rw [result, result, byQueue, ids]

end Marks

namespace Cursor
section Loop
variable {F : Type} [GoFloat F]

/-- The part of a turn for one job. A job for which there is no node is marked in the
snapshot. -/
def consider (cfg : Config) (limited : Bool) (env : Env) (p : Progress F Cursor) (f : Found) :
    Turn F Cursor :=
  match findNodeForJob cfg { queues := p.jobs.queues, nodes := p.nodes } f.job with
  | none => blocked cfg (p.jobs.mark f).queues { p with jobs := p.jobs.mark f } f.job
  | some _ => Sched.consider cfg limited p.jobs.queues env p f.job

/-- The main loop over the snapshot. -/
def loop (cfg : Config) (limited : Bool) (v : View) :
    Nat → Nat → Progress F Cursor → Option (Progress F Cursor)
  | 0, _, _ => none
  | fuel + 1, attempt, p =>
    if exhausted cfg limited v attempt then some p
    else
      match p.jobs.next (fuel + 1) with
      | none => none
      | some (none, jobs) => some { p with jobs }
      | some (some f, jobs) =>
        match consider cfg limited (v.runEnv attempt) { p with jobs } f with
        | .stop p => some p
        | .go p => loop cfg limited v fuel (attempt + 1) p

/-- `runCycle` with the cursor and its marks. -/
def runCycle (cfg : Config) (limited : Bool) (v : View) (fuel : Nat) (usage : Assoc F) (s : Server) :
    Option (Outcome F) :=
  match (queryServer cfg v s : Server × Option (ServerInfo F)) with
  | (s, none) => some { server := s, usage, result := {} }
  | (s, some info) =>
    let usage := decayed cfg usage
    (loop cfg limited v fuel 0
      { server := s, nodes := info.nodes, usage,
        jobs := newJobIterator cfg (sortedByJob cfg v usage info.queues) }).map
      fun p => { server := p.server, usage := p.usage, result := result v p.jobs.queues p }

end Loop
end Cursor

section Simulation
variable {F : Type} {J K : Type}

variable [GoFloat F]

/-- The iterator plays no part in what is done with a job that it has yielded. -/
theorem consider_map (f : J → K) (cfg : Config) (limited : Bool) (queues : List QueueInfo)
    (env : Env) (p : Progress F J) (j : JobInfo) :
    consider cfg limited queues env (p.map id f) j = (consider cfg limited queues env p j).map id f := by
  rw [consider, consider, show (p.map id f).nodes = p.nodes from rfl]
  cases findNodeForJob cfg { queues, nodes := p.nodes } j with
  | none => exact blocked_map id f cfg queues p j
  | some node =>
    have start := started_map id f cfg limited { p with
      server := (p.server.handle env (.runJob j.id (node.name ++ "/0"))).server } node.name j
    rw [apply_ite (Turn.map id f), ← start]
    rfl

namespace Cursor
variable {cfg : Config} {limited : Bool} {v : View} {queues : List QueueInfo} {env : Env}
  {p : Progress F Cursor} {f : Found}

/-- The queues of the cursor are those queues, up to the marks. -/
def Alike (queues : List QueueInfo) (c : Cursor) : Prop :=
  c.queues.map QueueInfo.unmarked = queues.map QueueInfo.unmarked

theorem Alike.consider {c : Cursor} (alike : c.Alike queues) (p : Progress F J) (j : JobInfo) :
    Sched.consider cfg limited c.queues env p j = Sched.consider cfg limited queues env p j := by
  rw [← consider_unmarked, alike, consider_unmarked]

omit [GoFloat F] in
theorem Alike.blocked {c : Cursor} (alike : c.Alike queues) (p : Progress F J) (j : JobInfo) :
    Sched.blocked cfg c.queues p j = Sched.blocked cfg queues p j := by
  rw [← blocked_unmarked, alike, blocked_unmarked]

omit [GoFloat F] in
theorem Alike.result {c : Cursor} (alike : c.Alike queues) (v : View) (p : Progress F J) :
    Sched.result v c.queues p = Sched.result v queues p := by
  rw [← result_unmarked, alike, result_unmarked]

theorem alike_newJobIterator (cfg : Config) (queues : List QueueInfo) : (newJobIterator cfg queues).Alike queues := by
  rw [Alike, Cursor.queues, newJobIterator, List.map_map]
  simp

theorem Alike.mark {c : Cursor} (alike : c.Alike queues) (f : Found) : (c.mark f).Alike queues :=
  (unmarked_mark c f).trans alike

theorem consider_alike (cfg : Config) (limited : Bool) (env : Env) (alike : p.jobs.Alike queues) :
    (consider cfg limited env p f).progress.jobs.Alike queues := by
  rw [consider]
  split
  · rw [(blocked_progress ..).2.2]
    exact alike.mark f
  · rwa [(consider_considered ..).2]

/-- What is done with a job of the snapshot is done with the same job of the view. -/
theorem consider_view (cfg : Config) (limited : Bool) (env : Env) (alike : p.jobs.Alike queues)
    (passed : ∀ x, p.jobs.slots[f.queue]? = some x → f.index < x.jIdx) :
    Sched.consider cfg limited queues env (p.map id view) f.job =
      (consider cfg limited env p f).map id view := by
  rw [consider, ← alike.consider]
  cases found : findNodeForJob cfg { queues := p.jobs.queues, nodes := p.nodes } f.job with
  | some node => exact consider_map ..
  | none =>
    have marked : Progress.map id view { p with jobs := p.jobs.mark f } = p.map id view := by
      rw [Progress.map, Progress.map, view_mark passed]
    rw [← blocked_map, marked, (alike.mark f).blocked, ← alike.blocked, Sched.consider,
      show (p.map id view).nodes = p.nodes from rfl, found]

theorem loop_view (cfg : Config) (limited : Bool) (v : View) (fuel attempt : Nat)
    (alike : p.jobs.Alike queues) :
    Sched.loop cfg limited v queues fuel attempt (p.map id view) =
        (loop cfg limited v fuel attempt p).map (·.map id view) ∧
      ∀ q ∈ loop cfg limited v fuel attempt p, q.jobs.Alike queues := by
  induction fuel generalizing attempt p with
  | zero => exact ⟨rfl, by simp [loop]⟩
  | succ fuel ih =>
    rw [Sched.loop, turn, loop]
    by_cases beyond : exhausted cfg limited v attempt = true
    · rw [if_pos beyond, if_pos beyond]
      exact ⟨rfl, by rintro q ⟨⟩; exact alike⟩
    rw [if_neg beyond, if_neg beyond, show (p.map id view).jobs = p.jobs.view from rfl, next_view]
    cases called : p.jobs.next (fuel + 1) with
    | none => exact ⟨rfl, by simp⟩
    | some call =>
      obtain ⟨found, jobs⟩ := call
      have moves := next_moves called
      have stays : jobs.Alike queues := by rwa [Alike, moves.queues]
      cases found with
      | none => exact ⟨rfl, by rintro q ⟨⟩; exact stays⟩
      | some f =>
        have faced := consider_view (p := { p with jobs }) cfg limited (v.runEnv attempt) stays
          (moves.passed f rfl)
        have kept := consider_alike (p := { p with jobs }) (f := f) cfg limited (v.runEnv attempt) stays
        dsimp only [Option.map_some]
        rw [show { p.map id view with jobs := jobs.view } = Progress.map id view { p with jobs } from rfl,
          faced]
        cases considered : consider cfg limited (v.runEnv attempt) { p with jobs } f with
        | stop q =>
          rw [considered] at kept
          exact ⟨rfl, by rintro r ⟨⟩; exact kept⟩
        | go q =>
          rw [considered] at kept
          exact ih (attempt + 1) kept

/-- The cycle over the snapshot with its marks is the cycle over the jobs still to come. -/
theorem cursor_cycle_eq_runCycle (cfg : Config) (limited : Bool) (v : View) (fuel : Nat)
    (usage : Assoc F) (s : Server) :
    runCycle cfg limited v fuel usage s = Sched.runCycle cfg limited v fuel usage s := by
  rw [runCycle, Sched.runCycle]
  rcases (queryServer cfg v s : Server × Option (ServerInfo F)) with ⟨t, _ | info⟩
  · rfl
  · obtain ⟨same, alike⟩ := loop_view (p := ⟨t, info.nodes, newJobIterator cfg _, decayed cfg usage, 0, ∅⟩)
      cfg limited v fuel 0 (alike_newJobIterator cfg (sortedByJob cfg v (decayed cfg usage) info.queues))
    dsimp only [Progress.map, id] at same ⊢
    rw [view_newJobIterator] at same
    rw [same, Option.map_map]
    refine Option.map_congr fun p ended => ?_
    rw [(alike p ended).result]
    rfl

end Cursor
end Simulation

end OpenTorque.Sched
