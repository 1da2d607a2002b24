import OpenTorque.Core.Rotation
import OpenTorque.Sched.Loop

/-! What the iterators yield: the calls of a whole cycle, up to the first that finds no job. -/
namespace OpenTorque.Sched.JobIterator

/-- The jobs of one call after the other, until a call yields none; `none` if a call does not
come back within those steps or there are more calls than that. -/
def drain (steps : Nat) : Nat → JobIterator → Option (List JobInfo)
  | 0, _ => none
  | calls + 1, it =>
    match it.next steps with
    | none => none
    | some (none, _) => some []
    | some (some j, rest) => (drain steps calls rest).map (j :: ·)

theorem drain_succ_none {steps calls : Nat} {it rest : JobIterator}
    (last : it.next steps = some (none, rest)) : drain steps (calls + 1) it = some [] := by
  rw [drain, last]

theorem drain_succ_some {steps calls : Nat} {it rest : JobIterator} {j : JobInfo}
    (found : it.next steps = some (some j, rest)) :
    drain steps (calls + 1) it = (drain steps calls rest).map (j :: ·) := by
  rw [drain, found]

/-- If every call comes back there are no more calls than jobs. -/
theorem drain_ends {P : JobIterator → Prop} {steps : Nat}
    (returns : ∀ it, P it → ∃ job rest, it.next steps = some (job, rest) ∧ P rest) {calls : Nat}
    {it : JobIterator} (start : P it) (enough : (pending it.queues).length < calls) :
    ∃ yielded, drain steps calls it = some yielded := by
  induction calls generalizing it with
  | zero => omega
  | succ calls ih =>
    obtain ⟨job, rest, found, kept⟩ := returns it start
    cases job with
    | none => exact ⟨[], drain_succ_none found⟩
    | some j =>
      have fewer := (next_shrinks found).fewer
      simp only [Option.toList_some, List.length_singleton] at fewer
      obtain ⟨yielded, rest⟩ := ih kept (by omega)
      exact ⟨j :: yielded, by rw [drain_succ_some found, rest, Option.map_some]⟩

section RoundRobin
variable {queues : List QueueInfo}

def offer (q : QueueInfo) : Option JobInfo :=
  if q.open then q.jobs.head?.filter (!·.canNotRun) else none

def advance (q : QueueInfo) : QueueInfo := if q.open then { q with jobs := q.jobs.tail } else q

theorem offer_of_empty {q : QueueInfo} (empty : q.jobs = []) : offer q = none := by
  simp [offer, empty]

theorem advance_of_empty {q : QueueInfo} (empty : q.jobs = []) : advance q = q := by
  unfold advance
  split
  · rw [empty, List.tail_nil, ← empty]
  · rfl

theorem visit_eq (queues : List QueueInfo) (i : Nat) :
    visit queues i = (queues[i]?.bind offer, queues.modify i advance) := by
  unfold visit
  cases here : queues[i]? with
  | none =>
    have outside : queues.modify i advance = queues :=
      List.modify_eq_self (List.getElem?_eq_none_iff.mp here)
    simp [outside]
  | some q =>
    by_cases opened : q.open = true
    · cases jobs : q.jobs with
      | nil =>
        have fixed : queues.modify i advance = queues :=
          Rotation.modify_of_fixed fun r found => by
            obtain rfl : q = r := Option.some.inj (here.symm.trans found)
            exact advance_of_empty jobs
        simp [opened, jobs, fixed, offer]
      | cons j rest =>
        have changed : queues.modify i advance = queues.set i { q with jobs := rest } := by
          rw [List.modify_eq_set_getElem?, here]
          simp [advance, opened, jobs]
        cases marked : j.canNotRun <;> simp [opened, jobs, marked, changed, offer, Option.filter]
    · have fixed : queues.modify i advance = queues :=
        Rotation.modify_of_fixed fun r found => by
          obtain rfl : q = r := Option.some.inj (here.symm.trans found)
          simp [advance, opened]
      simp [opened, fixed, offer]

/-- The first visits of a round-robin iterator, each to the queue whose turn it is. -/
abbrev visits (m : Nat) (queues : List QueueInfo) : List JobInfo × List QueueInfo :=
  Rotation.visits offer advance m queues

/-- The state after some visits, from the state after fewer. -/
structure Follows (queues : List QueueInfo) (m : Nat) (job : Option JobInfo)
    (rest : List QueueInfo) (k : Nat) : Prop where
  later : m ≤ k
  state : rest = (visits k queues).2
  output : (visits k queues).1 = (visits m queues).1 ++ job.toList

theorem round_follows (queues : List QueueInfo) (attempts m : Nat) {job : Option JobInfo}
    {rest : List QueueInfo} {k : Nat}
    (called : round attempts ((visits m queues).2, m) = (job, rest, k)) :
    Follows queues m job rest k ∧ (job = none → k = m + attempts) := by
  induction attempts generalizing m with
  | zero =>
    cases called
    exact ⟨⟨le_rfl, rfl, by simp⟩, fun _ => rfl⟩
  | succ attempts ih =>
    have once : visits (m + 1) queues = ((visits m queues).1 ++
        (visit (visits m queues).2 (m % (visits m queues).2.length)).1.toList,
        (visit (visits m queues).2 (m % (visits m queues).2.length)).2) := by
      rw [visit_eq]
      rfl
    rw [round] at called
    split at called
    case h_1 j after visited =>
      cases called
      rw [visited] at once
      exact ⟨⟨by omega, by rw [once], by rw [once]⟩, fun none => by cases none⟩
    case h_2 after visited =>
      rw [visited] at once
      have state : after = (visits (m + 1) queues).2 := by rw [once]
      rw [state] at called
      obtain ⟨⟨later, same, output⟩, count⟩ := ih (m + 1) called
      refine ⟨⟨by omega, same, ?_⟩, fun none => by rw [count none]; omega⟩
      rw [output, once]
      simp

theorem nextRoundRobin_follows {fuel m : Nat} {job : Option JobInfo} {rest : List QueueInfo} {k : Nat}
    (called : nextRoundRobin fuel ((visits m queues).2, m) = some (job, rest, k)) :
    Follows queues m job rest k ∧ (job = none → ∀ q ∈ rest, q.jobs = []) := by
  induction fuel generalizing m with
  | zero => cases called
  | succ fuel ih =>
    rw [nextRoundRobin] at called
    split at called
    case h_1 j after visited =>
      cases called
      exact ⟨(round_follows queues _ m visited).1, fun none => by cases none⟩
    case h_2 after next visited =>
      obtain ⟨follows, -⟩ := round_follows queues _ m visited
      split at called
      case isTrue empty =>
        cases called
        exact ⟨follows, fun _ => by simpa using empty⟩
      case isFalse more =>
        rw [follows.state] at called
        obtain ⟨⟨later, state, output⟩, done⟩ := ih called
        refine ⟨⟨follows.later.trans later, state, ?_⟩, done⟩
        rw [output, follows.output, Option.toList_none, List.append_nil]

def visited (queues : List QueueInfo) (m : Nat) : JobIterator where
  mode := .roundRobin
  queues := (visits m queues).2
  qIdx := m

theorem next_visited (queues : List QueueInfo) (steps m : Nat) : (visited queues m).next steps =
    (nextRoundRobin steps ((visits m queues).2, m)).map fun (job, queues, qIdx) =>
      (job, { mode := .roundRobin, queues, qIdx }) := rfl

theorem next_visited_follows {steps m : Nat} {job : Option JobInfo} {rest : JobIterator}
    (found : (visited queues m).next steps = some (job, rest)) :
    ∃ k, rest = visited queues k ∧ Follows queues m job (visits k queues).2 k ∧
      (job = none → ∀ q ∈ (visits k queues).2, q.jobs = []) := by
  rw [next_visited] at found
  obtain ⟨⟨job, left, k⟩, called, same⟩ := Option.map_eq_some_iff.mp found
  cases same
  obtain ⟨follows, done⟩ := nextRoundRobin_follows called
  obtain rfl := follows.state
  exact ⟨k, rfl, follows, done⟩

theorem drain_visited {steps calls m : Nat} {yielded : List JobInfo}
    (drained : drain steps calls (visited queues m) = some yielded) :
    ∃ k, (visits k queues).1 = (visits m queues).1 ++ yielded ∧
      ∀ q ∈ (visits k queues).2, q.jobs = [] := by
  induction calls generalizing m yielded with
  | zero => cases drained
  | succ calls ih =>
    cases found : (visited queues m).next steps with
    | none =>
      rw [drain, found] at drained
      cases drained
    | some answer =>
      obtain ⟨job, rest⟩ := answer
      obtain ⟨k, rfl, follows, done⟩ := next_visited_follows found
      cases job with
      | none =>
        rw [drain_succ_none found] at drained
        cases drained
        exact ⟨k, follows.output, done rfl⟩
      | some j =>
        rw [drain_succ_some found] at drained
        obtain ⟨later, drainedRest, rfl⟩ := Option.map_eq_some_iff.mp drained
        obtain ⟨n, output, empty⟩ := ih drainedRest
        refine ⟨n, ?_, empty⟩
        rw [output, follows.output, Option.toList_some, List.append_assoc, List.singleton_append]

/-- The job of a queue in a round. A job that is marked gives up its turn. -/
def place (r : Nat) (q : QueueInfo) : Option JobInfo :=
  if q.open then q.jobs[r]?.filter (!·.canNotRun) else none

def depth (queues : List QueueInfo) : Nat := (queues.map (·.jobs.length)).foldr max 0

/-- Round after round, each with at most one job of every open queue, in the order of the
queues. -/
def rounds (queues : List QueueInfo) : List JobInfo :=
  (List.range (depth queues)).flatMap fun r => queues.filterMap (place r)

theorem iterate_advance (r : Nat) (q : QueueInfo) :
    advance^[r] q = if q.open then { q with jobs := q.jobs.drop r } else q := by
  induction r with
  | zero => simp
  | succ r ih =>
    rw [Function.iterate_succ', Function.comp, ih]
    by_cases opened : q.open = true
    · have still : ({ q with jobs := q.jobs.drop r } : QueueInfo).open = true := opened
      simp [opened, advance, still]
    · simp [opened, advance]

theorem offer_iterate (r : Nat) (q : QueueInfo) : offer (advance^[r] q) = place r q := by
  rw [iterate_advance, place]
  by_cases opened : q.open = true
  · have still : ({ q with jobs := q.jobs.drop r } : QueueInfo).open = true := opened
    simp [opened, offer, still]
  · simp [opened, offer]

theorem length_le_depth {q : QueueInfo} (member : q ∈ queues) : q.jobs.length ≤ depth queues := by
  induction queues with
  | nil => cases member
  | cons first queues ih =>
    have split : depth (first :: queues) = max first.jobs.length (depth queues) := rfl
    rcases List.mem_cons.mp member with rfl | later
    · omega
    · have bound := ih later
      omega

/-- Rounds after the last add nothing. -/
theorem flatMap_rounds {r : Nat} (enough : depth queues ≤ r) :
    (List.range r).flatMap (fun i => queues.filterMap (place i)) = rounds queues := by
  obtain ⟨more, rfl⟩ := Nat.exists_eq_add_of_le enough
  have nothing : ((List.range more).map (depth queues + ·)).flatMap
      (fun i => queues.filterMap (place i)) = [] := by
    simp only [List.flatMap_eq_nil_iff, List.mem_map, List.filterMap_eq_nil_iff]
    rintro i ⟨k, -, rfl⟩ q member
    have bound := length_le_depth member
    have outside : q.jobs[depth queues + k]? = none := List.getElem?_eq_none (by omega)
    simp [place, outside]
  rw [List.range_add, List.flatMap_append, nothing, List.append_nil, rounds]

theorem visits_rounds {r : Nat} (enough : depth queues ≤ r) :
    (visits (queues.length * r) queues).1 = rounds queues := by
  rw [visits, Rotation.visits_rounds, ← flatMap_rounds enough]
  simp only [List.filterMap_map, Function.comp_def, offer_iterate]

theorem visits_of_empty {m k : Nat} (later : m ≤ k)
    (empty : ∀ q ∈ (visits m queues).2, q.jobs = []) : visits k queues = visits m queues :=
  Rotation.visits_of_idle later fun q member =>
    ⟨offer_of_empty (empty q member), advance_of_empty (empty q member)⟩

/-- What was yielded when every queue is empty, and why they can be. -/
theorem visits_done {k : Nat} (empty : ∀ q ∈ (visits k queues).2, q.jobs = []) :
    (visits k queues).1 = rounds queues ∧ ∀ q ∈ queues, q.open = false → q.jobs = [] := by
  constructor
  · rcases Nat.eq_zero_or_pos queues.length with none | some
    · obtain rfl := List.length_eq_zero_iff.mp none
      rw [visits_of_empty (Nat.zero_le k) (by simp)]
      rfl
    · have later : k ≤ queues.length * max (depth queues) k :=
        (le_max_right _ k).trans (Nat.le_mul_of_pos_left _ some)
      rw [← visits_of_empty later empty, visits_rounds (le_max_left _ _)]
  · intro q member closed
    obtain ⟨i, here⟩ := List.getElem?_of_mem member
    exact empty q (List.mem_of_getElem? (Rotation.visits_fixed (by simp [advance, closed]) here k))

/-- With no job in a closed queue the rounds empty the queues. -/
theorem visits_empty (idle : ∀ q ∈ queues, q.open = false → q.jobs = []) {m : Nat}
    (enough : queues.length * depth queues ≤ m) : ∀ q ∈ (visits m queues).2, q.jobs = [] := by
  have whole : ∀ q ∈ (visits (queues.length * depth queues) queues).2, q.jobs = [] := by
    rw [visits, Rotation.visits_rounds]
    intro q member
    obtain ⟨r, listed, rfl⟩ := List.mem_map.mp member
    rw [iterate_advance]
    split
    · exact List.drop_eq_nil_of_le (length_le_depth listed)
    case isFalse closed => exact idle r listed (by simpa using closed)
  rw [visits_of_empty enough whole]
  exact whole

theorem nextRoundRobin_returns (idle : ∀ q ∈ queues, q.open = false → q.jobs = []) {fuel m : Nat}
    (enough : queues.length * depth queues ≤ m + queues.length * (fuel + 1)) :
    ∃ answer, nextRoundRobin (fuel + 1) ((visits m queues).2, m) = some answer := by
  induction fuel generalizing m with
  | zero =>
    have empty (k : Nat) (later : m + queues.length ≤ k) := visits_empty idle (m := k) (by omega)
    rw [nextRoundRobin]
    split
    · exact ⟨_, rfl⟩
    case h_2 rest k visited =>
      obtain ⟨follows, count⟩ := round_follows queues _ m visited
      rw [Rotation.length_visits] at count
      have done := empty k (by rw [count rfl])
      rw [if_pos (by simpa [follows.state] using done)]
      exact ⟨_, rfl⟩
  | succ fuel ih =>
    rw [nextRoundRobin]
    split
    · exact ⟨_, rfl⟩
    case h_2 rest k visited =>
      obtain ⟨follows, count⟩ := round_follows queues _ m visited
      rw [Rotation.length_visits] at count
      split
      · exact ⟨_, rfl⟩
      · rw [follows.state]
        refine ih ?_
        rw [count rfl]
        rw [Nat.mul_succ] at enough
        omega

theorem next_visited_returns (idle : ∀ q ∈ queues, q.open = false → q.jobs = []) (m : Nat) :
    ∃ job k, (visited queues m).next (depth queues + 1) = some (job, visited queues k) := by
  have enough : queues.length * depth queues ≤ m + queues.length * (depth queues + 1) :=
    (Nat.mul_le_mul_left _ (Nat.le_succ _)).trans (Nat.le_add_left _ _)
  obtain ⟨⟨job, rest, k⟩, called⟩ := nextRoundRobin_returns idle enough
  refine ⟨job, k, ?_⟩
  rw [next_visited, called, Option.map_some, (nextRoundRobin_follows called).1.state]
  rfl

theorem flatMap_getElem?_filter {l : List JobInfo} {r : Nat} (enough : l.length ≤ r)
    (wanted : JobInfo → Bool) :
    (List.range r).flatMap (fun i => (l[i]?.filter wanted).toList) = l.filter wanted := by
  induction l generalizing r with
  | nil => simp
  | cons j l ih =>
    obtain ⟨r, rfl⟩ := Nat.exists_eq_add_one_of_ne_zero (n := r) (by simp at enough; omega)
    have rest := ih (r := r) (by simpa using enough)
    rw [List.range_succ_eq_map, List.flatMap_cons, List.flatMap_map]
    simp only [List.getElem?_cons_succ, List.getElem?_cons_zero, rest]
    cases kept : wanted j <;> simp [Option.filter, kept]

/-- Every job of an open queue that is not marked is served once. -/
theorem rounds_perm (queues : List QueueInfo) : (rounds queues).Perm
    ((queues.filter (·.open)).flatMap fun q => q.jobs.filter (!·.canNotRun)) := by
  suffices ∀ r, (∀ q ∈ queues, q.jobs.length ≤ r) →
      ((List.range r).flatMap fun i => queues.filterMap (place i)).Perm
        ((queues.filter (·.open)).flatMap fun q => q.jobs.filter (!·.canNotRun)) from
    this _ fun q => length_le_depth
  intro r
  induction queues with
  | nil => simp
  | cons q queues ih =>
    intro enough
    rw [List.forall_mem_cons] at enough
    have head : ∀ i, (q :: queues).filterMap (place i) =
        (place i q).toList ++ queues.filterMap (place i) := by
      intro i
      cases here : place i q <;> simp [here]
    simp only [head]
    refine (List.flatMap_append_perm _ _ _).symm.trans ?_
    by_cases opened : q.open = true
    · have own : (List.range r).flatMap (fun i => (place i q).toList) =
          q.jobs.filter (!·.canNotRun) := by
        simp only [place, if_pos opened]
        exact flatMap_getElem?_filter enough.1 _
      rw [own, List.filter_cons_of_pos opened, List.flatMap_cons]
      exact (ih enough.2).append_left _
    · have own : (List.range r).flatMap (fun i => (place i q).toList) = [] :=
        List.flatMap_eq_nil_iff.mpr fun i _ => by simp [place, opened]
      rw [own, List.nil_append, List.filter_cons_of_neg opened]
      exact ih enough.2

end RoundRobin

/-- Round-robin comes to an end, and has then served every open queue round by round, exactly
if no closed queue holds a job. -/
theorem round_robin_serves_iff (cfg : Config) (queues : List QueueInfo) :
    (∃ steps calls yielded,
      drain steps calls (newJobIterator { cfg with roundRobin := true } queues) = some yielded ∧
      yielded = rounds queues ∧ yielded.Perm
        ((queues.filter (·.open)).flatMap fun q => q.jobs.filter (!·.canNotRun))) ↔
      ∀ q ∈ queues, q.open = false → q.jobs = [] := by
  have start : newJobIterator { cfg with roundRobin := true } queues = visited queues 0 := rfl
  rw [start]
  constructor
  · rintro ⟨steps, calls, yielded, drained, -, -⟩
    obtain ⟨k, -, empty⟩ := drain_visited drained
    exact (visits_done empty).2
  · intro idle
    let reached (it : JobIterator) : Prop := ∃ m, it = visited queues m
    have returns : ∀ it, reached it →
        ∃ job rest, it.next (depth queues + 1) = some (job, rest) ∧ reached rest := by
      rintro _ ⟨m, rfl⟩
      obtain ⟨job, k, found⟩ := next_visited_returns idle m
      exact ⟨job, _, found, k, rfl⟩
    obtain ⟨yielded, drained⟩ := drain_ends returns ⟨0, rfl⟩ (Nat.lt_succ_self _)
    obtain ⟨k, output, empty⟩ := drain_visited drained
    have served : yielded = rounds queues := by simpa [(visits_done empty).1] using output.symm
    exact ⟨_, _, yielded, drained, served, served ▸ rounds_perm queues⟩

/-- A disabled queue with a job behind an open one. -/
def stuckQueues : List QueueInfo :=
  [{ name := "batch", type := "Execution", enabled := true, started := true,
     jobs := [{ id := "0.server", queue := "batch" }] },
    { name := "drained", type := "Execution", enabled := false, started := true,
      jobs := [{ id := "1.server", queue := "drained" }] }]

/-- The iterator yields the job of the open queue and never comes back from the next call. -/
theorem round_robin_stuck : ¬ ∃ steps calls yielded,
    drain steps calls (newJobIterator { roundRobin := true } stuckQueues) = some yielded := by
  rintro ⟨steps, calls, yielded, drained⟩
  have drained : drain steps calls (visited stuckQueues 0) = some yielded := drained
  obtain ⟨k, -, empty⟩ := drain_visited drained
  have idle := (visits_done empty).2
  revert idle
  decide +kernel

end OpenTorque.Sched.JobIterator
