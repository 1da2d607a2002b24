import OpenTorque.Core.Sorting
import OpenTorque.Sched.Iteration

/-! The order in which a cycle considers the jobs: the sort within a queue, the promotion of
starving jobs, and the order across queues. -/
namespace OpenTorque.Sched
open Sorting (StrictWeak Ordered)

/-- What `sort.Slice` promises: an ordered list, if the comparator is a strict weak order. -/
def SliceSort.Orders (slices : SliceSort) : Prop :=
  ∀ {α : Type} (less : α → α → Bool) (l : List α), StrictWeak less →
    Ordered less (slices.sort less l)

theorem SliceSort.stable_orders : SliceSort.stable.Orders :=
  fun _ l weak => weak.ordered_insertionSort l

/-- Another way to sort, which turns equal elements round. -/
def SliceSort.reversed : SliceSort where
  sort less l := stableSort less l.reverse
  perm _ l := (List.perm_insertionSort _ _).trans l.reverse_perm

theorem SliceSort.reversed_orders : SliceSort.reversed.Orders :=
  fun _ l weak => weak.ordered_insertionSort l.reverse

section Order
variable {F : Type} [GoFloat F]

theorem before_strictWeak {sortBy : SortBy} (integer : sortBy ≠ .fairShare) (usage : Assoc F) :
    StrictWeak (before sortBy usage) := by
  cases sortBy with
  | fifo => exact .of_key JobInfo.queueTime
  | shortestJobFirst => exact .of_key JobInfo.walltime
  | longestJobFirst => exact (StrictWeak.of_key JobInfo.walltime).flip
  | highPriorityFirst => exact (StrictWeak.of_key JobInfo.priority).flip
  | lowPriorityFirst => exact .of_key JobInfo.priority
  | smallestMemoryFirst => exact .of_key JobInfo.memReq
  | largestMemoryFirst => exact (StrictWeak.of_key JobInfo.memReq).flip
  | fairShare => exact absurd rfl integer

/-- `a` has to be considered before `b`: starving jobs first, then by `sort_by`. -/
def ahead (cfg : Config) (now : Time) (usage : Assoc F) (a b : JobInfo) : Bool :=
  if cfg.helpStarvingJobs && 0 < cfg.maxStarve && starving cfg now a != starving cfg now b then
    starving cfg now a
  else before cfg.sortBy usage a b

theorem sortJobs_perm (cfg : Config) (v : View) (usage : Assoc F) (jobs : List JobInfo) :
    (sortJobs cfg v usage jobs).Perm jobs := by
  unfold sortJobs
  dsimp only
  split
  · exact (List.filter_append_perm _ _).trans (v.slices.perm _ jobs)
  · exact v.slices.perm _ jobs

theorem sortJobs_ordered {cfg : Config} {v : View} {usage : Assoc F} (orders : v.slices.Orders)
    (weak : StrictWeak (before cfg.sortBy usage)) (jobs : List JobInfo) :
    Ordered (ahead cfg v.now usage) (sortJobs cfg v usage jobs) := by
  have sorted := orders (before cfg.sortBy usage) jobs weak
  unfold sortJobs
  dsimp only
  split
  case isTrue helped =>
    refine List.pairwise_append.mpr ⟨?_, ?_, ?_⟩
    · refine (sorted.filter _).imp_of_mem fun {a b} first second kept => ?_
      have equal : starving cfg v.now b = starving cfg v.now a := by
        rw [(List.mem_filter.mp first).2, (List.mem_filter.mp second).2]
      simpa [ahead, equal] using kept
    · refine (sorted.filter _).imp_of_mem fun {a b} first second kept => ?_
      have equal : starving cfg v.now b = starving cfg v.now a := by
        have one := (List.mem_filter.mp first).2
        have two := (List.mem_filter.mp second).2
        simp only [Bool.not_eq_true'] at one two
        rw [one, two]
      simpa [ahead, equal] using kept
    · intro a first b second
      have one := (List.mem_filter.mp first).2
      have two := (List.mem_filter.mp second).2
      simp only [Bool.not_eq_true'] at two
      simp [ahead, helped, one, two]
  case isFalse alone =>
    refine List.Pairwise.imp (fun {a b} kept => ?_) sorted
    simpa [ahead, alone] using kept

/-- What the promotion of starving jobs has to make of a list of jobs. -/
structure StarvingFirst (cfg : Config) (now : Time) (usage : Assoc F) (jobs sorted : List JobInfo) :
    Prop where
  perm : sorted.Perm jobs
  helped : cfg.helpStarvingJobs = true → ∃ first rest, sorted = first ++ rest ∧
    (∀ a ∈ first, starving cfg now a = true) ∧ (∀ b ∈ rest, starving cfg now b = false) ∧
    first.Pairwise (fun a b => a.queueTime ≤ b.queueTime) ∧ Ordered (before cfg.sortBy usage) rest
  alone : cfg.helpStarvingJobs = false → Ordered (before cfg.sortBy usage) sorted

/-- The keys put a starving job before those that wait less long, and also before the others
if no job is promoted. -/
def KeysHelp (cfg : Config) (now : Time) (usage : Assoc F) (jobs : List JobInfo) : Prop :=
  ∀ a ∈ jobs, ∀ b ∈ jobs, starving cfg now a = true →
    (starving cfg now b = true → a.queueTime < b.queueTime → before cfg.sortBy usage a b = true) ∧
    (starving cfg now b = false → 0 < cfg.maxStarve ∨ before cfg.sortBy usage a b = true)

section Starvation
variable {cfg : Config} {v : View} {now : Time} {usage : Assoc F} {jobs sorted : List JobInfo}
  {a b : JobInfo}

theorem KeysHelp.waiting (keys : KeysHelp cfg now usage jobs)
    (ordered : Ordered (before cfg.sortBy usage) sorted) (perm : sorted.Perm jobs) :
    (sorted.filter (starving cfg now)).Pairwise fun a b => a.queueTime ≤ b.queueTime := by
  refine (List.Pairwise.filter _ ordered).imp_of_mem fun {a b} first second kept => ?_
  obtain ⟨listed, late⟩ := List.mem_filter.mp first
  obtain ⟨listed', late'⟩ := List.mem_filter.mp second
  by_contra later
  have wrong := (keys b (perm.mem_iff.mp listed') a (perm.mem_iff.mp listed) late').1 late
    (not_le.mp later)
  simp [kept] at wrong

/-- Without promotion the keys alone put the starving jobs first. -/
theorem KeysHelp.split (keys : KeysHelp cfg now usage jobs) (never : ¬ 0 < cfg.maxStarve)
    (ordered : Ordered (before cfg.sortBy usage) sorted) (perm : sorted.Perm jobs) :
    sorted.filter (starving cfg now) ++ sorted.filter (!starving cfg now ·) = sorted := by
  refine Sorting.filter_append_of_pairwise (List.Pairwise.imp_of_mem ?_ ordered)
  intro a b first second kept late
  cases early : starving cfg now a with
  | true => rfl
  | false =>
    rcases (keys b (perm.mem_iff.mp second) a (perm.mem_iff.mp first) late).2 early with some | wrong
    · exact absurd some never
    · simp [kept] at wrong

theorem starvingFirst_sortJobs (integer : cfg.sortBy ≠ .fairShare) (orders : v.slices.Orders)
    (keys : cfg.helpStarvingJobs = false ∨ KeysHelp cfg v.now usage jobs) :
    StarvingFirst cfg v.now usage jobs (sortJobs cfg v usage jobs) := by
  have ordered := orders (before cfg.sortBy usage) jobs (before_strictWeak integer usage)
  have perm := v.slices.perm (before cfg.sortBy usage) jobs
  refine ⟨sortJobs_perm cfg v usage jobs, fun helped => ?_, fun alone => ?_⟩
  · have keys := keys.resolve_left (by simp [helped])
    refine ⟨_, (v.slices.sort (before cfg.sortBy usage) jobs).filter (!starving cfg v.now ·), ?_,
      fun a member => (List.mem_filter.mp member).2,
      fun b member => by simpa using (List.mem_filter.mp member).2,
      keys.waiting ordered perm, List.Pairwise.filter _ ordered⟩
    unfold sortJobs
    dsimp only
    split
    · rfl
    case isFalse never =>
      exact (keys.split (by simpa [helped] using never) ordered perm).symm
  · simpa [sortJobs, alone] using ordered

theorem StarvingFirst.starving_of_pair (first : StarvingFirst cfg now usage jobs sorted)
    (helped : cfg.helpStarvingJobs = true) (pair : [b, a].Sublist sorted)
    (late : starving cfg now a = true) : starving cfg now b = true := by
  obtain ⟨front, rest, rfl, waiting, others, -, -⟩ := first.helped helped
  have split : (front ++ rest).Pairwise fun a b => starving cfg now b = true → starving cfg now a = true := by
    refine List.pairwise_append.mpr ⟨?_, ?_, fun x member y _ _ => waiting x member⟩
    · exact List.pairwise_of_forall_mem_list fun x member y _ _ => waiting x member
    · exact List.pairwise_of_forall_mem_list fun x _ y member late => by simp [others y member] at late
  exact (List.pairwise_pair.mp (split.sublist pair)) late

theorem StarvingFirst.le_of_pair (first : StarvingFirst cfg now usage jobs sorted)
    (helped : cfg.helpStarvingJobs = true) (pair : [b, a].Sublist sorted)
    (late : starving cfg now a = true) (late' : starving cfg now b = true) :
    b.queueTime ≤ a.queueTime := by
  obtain ⟨front, rest, rfl, waiting, others, times, -⟩ := first.helped helped
  have front_only : (front ++ rest).filter (starving cfg now) = front := by
    rw [List.filter_append, List.filter_eq_self.mpr waiting, List.filter_eq_nil_iff.mpr, List.append_nil]
    intro x member
    simp [others x member]
  have kept := pair.filter (starving cfg now)
  rw [front_only, List.filter_cons_of_pos late', List.filter_cons_of_pos late, List.filter_nil] at kept
  simpa using times.sublist kept

/-- Two jobs that the key does not put in order may come out either way. -/
theorem exists_pair_sorted (first : a ∈ jobs) (second : b ∈ jobs) (other : a ≠ b)
    (free : before cfg.sortBy usage a b = false) : ∃ slices : SliceSort, slices.Orders ∧
      [b, a].Sublist (slices.sort (before cfg.sortBy usage) jobs) := by
  rcases Sorting.pair_sublist_or second first other.symm with pair | pair
  · exact ⟨.stable, SliceSort.stable_orders, List.pair_sublist_insertionSort free pair⟩
  · refine ⟨.reversed, SliceSort.reversed_orders, List.pair_sublist_insertionSort free ?_⟩
    simpa using pair.reverse

theorem pair_sortJobs (pair : [b, a].Sublist (v.slices.sort (before cfg.sortBy usage) jobs))
    (alike : starving cfg v.now b = starving cfg v.now a ∨ ¬ 0 < cfg.maxStarve) :
    [b, a].Sublist (sortJobs cfg v usage jobs) := by
  unfold sortJobs
  dsimp only
  split
  case isTrue helped =>
    simp only [Bool.and_eq_true, decide_eq_true_eq] at helped
    have alike := alike.resolve_right (not_not.mpr helped.2)
    cases late : starving cfg v.now a with
    | true =>
      have kept := pair.filter (starving cfg v.now)
      rw [List.filter_cons_of_pos (alike.trans late), List.filter_cons_of_pos late, List.filter_nil] at kept
      exact kept.trans (List.sublist_append_left _ _)
    | false =>
      have kept := pair.filter (!starving cfg v.now ·)
      rw [List.filter_cons_of_pos (by simp [alike, late]), List.filter_cons_of_pos (by simp [late]),
        List.filter_nil] at kept
      exact kept.trans (List.sublist_append_right _ _)
  case isFalse => exact pair

/-- `sortJobs` puts the starving jobs first, the longest waiting before the others, however
equal keys come out, exactly if the keys already do so among them. -/
theorem starving_order_iff (cfg : Config) (now : Time) (usage : Assoc F) (jobs : List JobInfo)
    (integer : cfg.sortBy ≠ .fairShare) :
    (∀ v : View, v.now = now → v.slices.Orders →
      StarvingFirst cfg now usage jobs (sortJobs cfg v usage jobs)) ↔
      cfg.helpStarvingJobs = false ∨ KeysHelp cfg now usage jobs := by
  constructor
  · intro always
    cases helped : cfg.helpStarvingJobs with
    | false => exact .inl rfl
    | true =>
      refine .inr fun a first b second late => ⟨fun late' sooner => ?_, fun early => ?_⟩
      · by_contra free
        have other : a ≠ b := by
          rintro rfl
          exact lt_irrefl _ sooner
        obtain ⟨slices, orders, pair⟩ := exists_pair_sorted first second other (by simpa using free)
        have result := always { View.at now with slices } rfl orders
        have order := result.le_of_pair helped
          (pair_sortJobs pair (.inl (late'.trans late.symm))) late late'
        exact absurd sooner (not_lt.mpr order)
      · by_contra free
        obtain ⟨never, free⟩ := not_or.mp free
        have other : a ≠ b := by
          rintro rfl
          simp [late] at early
        obtain ⟨slices, orders, pair⟩ := exists_pair_sorted first second other (by simpa using free)
        have result := always { View.at now with slices } rfl orders
        have wrong := result.starving_of_pair helped (pair_sortJobs pair (.inr never)) late
        simp [early] at wrong
  · rintro keys v rfl orders
    exact starvingFirst_sortJobs integer orders keys

end Starvation

/-- A long job that has waited longest and a short one, both starving. -/
def longWait : JobInfo := { id := "0.server", queueTime := 1, walltime := 50 }

def shortWait : JobInfo := { id := "1.server", queueTime := 2, walltime := 5 }

/-- Starvation begins ten nanoseconds after submission. -/
def impatient (sortBy : SortBy) : Config := { sortBy, maxStarve := 10 }

/-- Among starving jobs the shortest goes first, not the one that has waited longest. -/
theorem starving_jobs_by_key : ∃ v : View, v.now = 100 ∧ v.slices.Orders ∧
    ¬ StarvingFirst (impatient .shortestJobFirst) 100 (∅ : Assoc Unit) [longWait, shortWait]
      (sortJobs (impatient .shortestJobFirst) v (∅ : Assoc Unit) [longWait, shortWait]) := by
  refine ⟨View.at 100, rfl, SliceSort.stable_orders, fun first => ?_⟩
  have order := first.le_of_pair (a := longWait) (b := shortWait) rfl (List.Sublist.refl _)
    (by decide) (by decide)
  revert order
  decide

theorem starving_jobs_fifo : (impatient .fifo).sortBy ≠ .fairShare ∧
    ∀ v : View, v.now = 100 → v.slices.Orders →
      StarvingFirst (impatient .fifo) 100 (∅ : Assoc Unit) [longWait, shortWait]
        (sortJobs (impatient .fifo) v (∅ : Assoc Unit) [longWait, shortWait]) :=
  ⟨by decide, (starving_order_iff (impatient .fifo) 100 (∅ : Assoc Unit) [longWait, shortWait]
    (by decide)).mpr (.inr (by unfold KeysHelp; decide))⟩

end Order

namespace JobIterator

/-- The jobs that an iterator in queue order has to yield. -/
def inOrder (queues : List QueueInfo) : List JobInfo :=
  (queues.filter (·.open)).flatMap fun q => q.jobs.filter (!·.canNotRun)

theorem inOrder_cons (q : QueueInfo) (queues : List QueueInfo) : inOrder (q :: queues) =
    (if q.open then q.jobs.filter (!·.canNotRun) else []) ++ inOrder queues := by
  by_cases opened : q.open = true <;> simp [inOrder, opened]

theorem nextInOrder_inOrder (queues : List QueueInfo) :
    inOrder queues = (nextInOrder queues).1.toList ++ inOrder (nextInOrder queues).2 := by
  induction queues with
  | nil => rfl
  | cons q queues ih =>
    rw [nextInOrder, inOrder_cons]
    by_cases opened : q.open = true
    · have passed : (q.jobs.dropWhile (·.canNotRun)).filter (!·.canNotRun) =
          q.jobs.filter (!·.canNotRun) := by
        have marked : (q.jobs.takeWhile (·.canNotRun)).filter (!·.canNotRun) = [] :=
          List.filter_eq_nil_iff.mpr fun j member => by simpa using List.mem_takeWhile_imp member
        conv => rhs; rw [← List.takeWhile_append_dropWhile (p := (·.canNotRun)) (l := q.jobs)]
        rw [List.filter_append, marked, List.nil_append]
      cases found : q.jobs.dropWhile (·.canNotRun) with
      | nil =>
        rw [found] at passed
        simpa [opened, take, found, ← passed] using ih
      | cons j rest =>
        have unmarked : j.canNotRun = false := by
          have head := List.head?_dropWhile_not (·.canNotRun) q.jobs
          rw [found] at head
          simpa using head
        have still : ({ q with jobs := rest } : QueueInfo).open = true := opened
        rw [found] at passed
        simp only [opened, if_true, take, found, inOrder_cons, still, ← passed]
        simp [unmarked]
    · simpa [opened] using ih

theorem nextInOrder_none {queues : List QueueInfo} (none : (nextInOrder queues).1 = none) :
    (nextInOrder queues).2 = [] := by
  induction queues with
  | nil => rfl
  | cons q queues ih =>
    rw [nextInOrder] at none ⊢
    by_cases opened : q.open = true
    · cases found : take q with
      | none => simpa [opened, found] using ih (by simpa [opened, found] using none)
      | some answer => simp [opened, found] at none
    · simpa [opened] using ih (by simpa [opened] using none)

theorem next_inOrder {it : JobIterator} (ordered : it.mode ≠ .roundRobin) (steps : Nat) :
    it.next steps = some ((nextInOrder it.queues).1, { it with queues := (nextInOrder it.queues).2 }) := by
  unfold next
  cases mode : it.mode with
  | roundRobin => exact absurd mode ordered
  | byQueue | flat => rfl

theorem drain_inOrder {steps calls : Nat} {it : JobIterator} {yielded : List JobInfo}
    (ordered : it.mode ≠ .roundRobin) (drained : drain steps calls it = some yielded) :
    yielded = inOrder it.queues := by
  induction calls generalizing it yielded with
  | zero => cases drained
  | succ calls ih =>
    have call := next_inOrder ordered steps
    rw [nextInOrder_inOrder]
    cases job : (nextInOrder it.queues).1 with
    | none =>
      rw [job] at call
      rw [drain_succ_none call] at drained
      cases drained
      rw [nextInOrder_none job]
      rfl
    | some j =>
      rw [job] at call
      rw [drain_succ_some call] at drained
      obtain ⟨later, drainedRest, rfl⟩ := Option.map_eq_some_iff.mp drained
      have still : ({ it with queues := (nextInOrder it.queues).2 } : JobIterator).mode ≠
        .roundRobin := ordered
      rw [ih still drainedRest]
      rfl

theorem exists_drain_inOrder {it : JobIterator} (ordered : it.mode ≠ .roundRobin) :
    ∃ steps calls, drain steps calls it = some (inOrder it.queues) := by
  have returns : ∀ it : JobIterator, it.mode ≠ .roundRobin →
      ∃ job rest, it.next 0 = some (job, rest) ∧ rest.mode ≠ .roundRobin :=
    fun it ordered => ⟨_, _, next_inOrder ordered 0, ordered⟩
  obtain ⟨yielded, drained⟩ := drain_ends returns ordered (Nat.lt_succ_self _)
  exact ⟨0, _, drain_inOrder ordered drained ▸ drained⟩

end JobIterator
section Across
variable {F : Type} [GoFloat F] {cfg : Config} {v : View} {usage : Assoc F} {queues : List QueueInfo}

theorem inOrder_sortedByJob (fresh : ∀ q ∈ queues, ∀ j ∈ q.jobs, j.canNotRun = false) :
    JobIterator.inOrder (sortedByJob cfg v usage queues) =
      (queues.filter (·.open)).flatMap fun q => sortJobs cfg v usage q.jobs := by
  induction queues with
  | nil => rfl
  | cons q queues ih =>
    rw [List.forall_mem_cons] at fresh
    have unmarked : (sortJobs cfg v usage q.jobs).filter (!·.canNotRun) =
        sortJobs cfg v usage q.jobs := by
      refine List.filter_eq_self.mpr fun j member => ?_
      simp [fresh.1 j ((sortJobs_perm cfg v usage q.jobs).mem_iff.mp member)]
    have rest := ih fresh.2
    rw [sortedByJob] at rest ⊢
    rw [List.map_cons, JobIterator.inOrder_cons, rest, unmarked]
    have same : ({ q with jobs := sortJobs cfg v usage q.jobs } : QueueInfo).open = q.open := rfl
    by_cases opened : q.open = true <;> simp [same, opened]

/-- No job of a later queue has to be considered before one of an earlier queue. -/
def OrderedAcross (cfg : Config) (now : Time) (usage : Assoc F) (queues : List QueueInfo) : Prop :=
  (queues.filter (·.open)).Pairwise fun q r =>
    ∀ a ∈ q.jobs, ∀ b ∈ r.jobs, ahead cfg now usage b a = false

theorem ordered_flatMap_iff (orders : v.slices.Orders)
    (weak : StrictWeak (before cfg.sortBy usage)) :
    Ordered (ahead cfg v.now usage)
      ((queues.filter (·.open)).flatMap fun q => sortJobs cfg v usage q.jobs) ↔
      OrderedAcross cfg v.now usage queues := by
  rw [Ordered, List.pairwise_flatMap, OrderedAcross]
  simp only [(sortJobs_perm cfg v usage _).mem_iff]
  exact and_iff_right fun q _ => sortJobs_ordered orders weak q.jobs

/-- The order of the jobs that one cycle considers when it does not go round the queues. -/
def IterationOrder (cfg : Config) (v : View) (usage : Assoc F) (queues : List QueueInfo)
    (yielded : List JobInfo) : Prop :=
  if cfg.byQueue then
    yielded = ((queues.filter (·.open)).flatMap fun q => sortJobs cfg v usage q.jobs) ∧
      ∀ q ∈ queues, (sortJobs cfg v usage q.jobs).Perm q.jobs ∧
        Ordered (ahead cfg v.now usage) (sortJobs cfg v usage q.jobs)
  else
    yielded.Perm ((queues.filter (·.open)).flatMap (·.jobs)) ∧
      Ordered (ahead cfg v.now usage) yielded

/-- The iterator yields the documented order exactly if queues are kept apart or the queues
follow each other in that order anyway. -/
theorem iteration_order_iff (cfg : Config) (v : View) (usage : Assoc F) (queues : List QueueInfo)
    (apart : cfg.roundRobin = false) (fresh : ∀ q ∈ queues, ∀ j ∈ q.jobs, j.canNotRun = false)
    (orders : v.slices.Orders) (weak : StrictWeak (before cfg.sortBy usage)) :
    (∃ steps calls yielded,
      JobIterator.drain steps calls (newJobIterator cfg (sortedByJob cfg v usage queues)) =
        some yielded ∧ IterationOrder cfg v usage queues yielded) ↔
      cfg.byQueue = true ∨ OrderedAcross cfg v.now usage queues := by
  have ordered : (newJobIterator cfg (sortedByJob cfg v usage queues)).mode ≠ .roundRobin := by
    unfold newJobIterator Config.mode
    cases cfg.byQueue <;> simp [apart]
  have jobs : JobIterator.inOrder (sortedByJob cfg v usage queues) = _ := inOrder_sortedByJob fresh
  have perm : ((queues.filter (·.open)).flatMap fun q => sortJobs cfg v usage q.jobs).Perm
      ((queues.filter (·.open)).flatMap (·.jobs)) :=
    List.Perm.flatMap_left _ fun q _ => sortJobs_perm cfg v usage q.jobs
  constructor
  · rintro ⟨steps, calls, yielded, drained, order⟩
    cases kept : cfg.byQueue with
    | true => exact .inl rfl
    | false =>
      have same : yielded = _ := (JobIterator.drain_inOrder ordered drained).trans jobs
      rw [IterationOrder, kept, same] at order
      exact .inr ((ordered_flatMap_iff orders weak).mp order.2)
  · intro condition
    obtain ⟨steps, calls, drained⟩ := JobIterator.exists_drain_inOrder ordered
    refine ⟨steps, calls, _, drained.trans (congrArg some jobs), ?_⟩
    unfold IterationOrder
    split
    · exact ⟨rfl, fun q _ => ⟨sortJobs_perm cfg v usage q.jobs, sortJobs_ordered orders weak q.jobs⟩⟩
    case isFalse flat =>
      exact ⟨perm, (ordered_flatMap_iff orders weak).mpr (condition.resolve_left flat)⟩

end Across

/-- Two queues with one job each; the job of the second queue was submitted first. -/
def twoQueues : List QueueInfo :=
  [{ name := "a", type := "Execution", jobs := [{ id := "1.server", queue := "a", queueTime := 2 }] },
    { name := "b", type := "Execution", jobs := [{ id := "0.server", queue := "b", queueTime := 1 }] }]

/-- Without `by_queue` the jobs are still considered queue by queue. -/
theorem flat_mode_by_queue : ∃ a b : JobInfo,
    JobIterator.drain 0 3 (newJobIterator { byQueue := false }
      (sortedByJob { byQueue := false } (View.at 10) (∅ : Assoc Unit) twoQueues)) = some [a, b] ∧
    ahead { byQueue := false } 10 (∅ : Assoc Unit) b a = true :=
  ⟨_, _, rfl, by decide⟩

theorem flat_mode_ordered :
    StrictWeak (before SortBy.fifo (∅ : Assoc Unit)) ∧
    ∃ steps calls yielded,
      JobIterator.drain steps calls (newJobIterator { byQueue := false }
        (sortedByJob { byQueue := false } (View.at 10) (∅ : Assoc Unit) twoQueues.reverse)) =
        some yielded ∧
      IterationOrder { byQueue := false } (View.at 10) (∅ : Assoc Unit) twoQueues.reverse yielded :=
  ⟨before_strictWeak (by decide) _,
    (iteration_order_iff { byQueue := false } (View.at 10) (∅ : Assoc Unit) twoQueues.reverse rfl
      (by decide) SliceSort.stable_orders (before_strictWeak (by decide) _)).mpr
      (.inr (by unfold OrderedAcross; decide +kernel))⟩

end OpenTorque.Sched
