import OpenTorque.Core.Sorting
import OpenTorque.Sched.Constraints

/-! Which node `findNodeForJob` returns, against what the job and its queue ask for. -/
namespace OpenTorque.Sched
open Sorting (StrictWeak)

section Requests
variable {F : Type}

def NodeInfo.Counted (n : NodeInfo F) : Prop :=
  ∀ name, (0 ≤ (n.gresTotal.lookup name).getD 0 ∧ (n.gresTotal.lookup name).getD 0 ≤ maxInt) ∧
    (0 ≤ (n.gresUsed.lookup name).getD 0 ∧ (n.gresUsed.lookup name).getD 0 ≤ maxInt)

/-- The node gives what the job and its queue ask for. -/
structure Satisfies (queues : List QueueInfo) (j : JobInfo) (n : NodeInfo F) : Prop where
  host : j.host = "" ∨ Text.equalFold n.name j.host = true
  hostGroup : j.hostGroup = "" ∨
    ∃ group ∈ n.groups, Text.equalFold (Text.trimSpace group) j.hostGroup = true
  features : ∀ f ∈ j.features, ∃ property ∈ n.properties, Text.equalFold property f = true
  hostList : ∀ q, queueForJob queues j.queue = some q → q.hostList = [] ∨
    ∃ entry ∈ q.hostList, hostListed n entry = true
  access : ∀ q, queueForJob queues j.queue = some q → q.naccessPolicy ∈ exclusivePolicies →
    n.jobs = []
  gres : ∀ name req, j.gres.lookup name = some req →
    req ≤ (n.gresTotal.lookup name).getD 0 - (n.gresUsed.lookup name).getD 0
  cpus : j.cpuReq ≤ n.freeCPUs

variable {queues : List QueueInfo} {j : JobInfo} {n : NodeInfo F}

theorem NodeInfo.Counted.hasGRes (counted : n.Counted) (want : Assoc Int) :
    nodeHasGRes n want = true ↔ ∀ name req, want.lookup name = some req →
      req ≤ (n.gresTotal.lookup name).getD 0 - (n.gresUsed.lookup name).getD 0 := by
  have exact_ (name : String) :
      wrap64 ((n.gresTotal.lookup name).getD 0 - (n.gresUsed.lookup name).getD 0) =
        (n.gresTotal.lookup name).getD 0 - (n.gresUsed.lookup name).getD 0 := by
    obtain ⟨⟨low, high⟩, low', high'⟩ := counted name
    refine wrap64_of_fits ?_ (by omega)
    rw [minInt]
    rw [maxInt] at high'
    omega
  rw [nodeHasGRes, List.all_eq_true, Assoc.forall_lookup]
  simp only [exact_, decide_eq_true_eq]

theorem queueNodeOK_iff : queueNodeOK (queueForJob queues j.queue) n = true ↔
    (∀ q, queueForJob queues j.queue = some q → q.hostList = [] ∨
      ∃ entry ∈ q.hostList, hostListed n entry = true) ∧
    ∀ q, queueForJob queues j.queue = some q → q.naccessPolicy ∈ exclusivePolicies → n.jobs = [] := by
  cases queueForJob queues j.queue with
  | none => simp [queueNodeOK]
  | some q =>
    simp only [queueNodeOK, Bool.and_eq_true, Bool.or_eq_true, decide_eq_true_eq, List.any_eq_true,
      Option.some.injEq, forall_eq']
    exact and_congr_right fun _ => Decidable.imp_iff_not_or.symm

theorem features_iff : j.features = [] ∨ nodeHasAllFeatures n j.features = true ↔
    ∀ f ∈ j.features, ∃ property ∈ n.properties, Text.equalFold property f = true := by
  simp only [nodeHasAllFeatures, List.all_eq_true, List.any_eq_true]
  constructor
  · rintro (none | all)
    · simp [none]
    · exact all
  · exact .inr

/-- The filters of `findNodeForJob` let exactly the satisfying nodes pass. -/
theorem satisfies_iff (counted : n.Counted) (positive : 0 < j.cpuReq) :
    (meets queues j n && decide (j.demand ≤ n.freeCPUs)) = true ↔ Satisfies queues j n := by
  have demand : j.demand = j.cpuReq := if_neg (by omega)
  simp only [meets, Bool.and_eq_true, counted.hasGRes, queueNodeOK_iff, features_iff, demand,
    nodeHasGroup, Bool.or_eq_true, decide_eq_true_eq, List.any_eq_true]
  constructor
  · rintro ⟨⟨⟨⟨⟨host, features⟩, group⟩, hostList, access⟩, gres⟩, cpus⟩
    exact ⟨host, group, features, hostList, access, gres, cpus⟩
  · rintro ⟨host, group, features, hostList, access, gres, cpus⟩
    exact ⟨⟨⟨⟨⟨host, features⟩, group⟩, hostList, access⟩, gres⟩, cpus⟩

def Suitable (queues : List QueueInfo) (j : JobInfo) (n : NodeInfo F) : Prop :=
  nodeSchedulable n = true ∧ Satisfies queues j n

variable {info : ServerInfo F}

theorem mem_candidates_iff (counted : ∀ n ∈ info.nodes, n.Counted) (positive : 0 < j.cpuReq) :
    n ∈ candidates info j ↔ n ∈ info.nodes ∧ Suitable info.queues j n := by
  rw [candidates, List.mem_filter]
  refine and_congr_right fun listed => ?_
  rw [admissible_eq, Bool.and_assoc, Bool.and_eq_true, satisfies_iff (counted n listed) positive,
    Suitable]

end Requests

section Preference
variable {F : Type} [GoFloat F] {cfg : Config}

/-- Static nodes first, then fewer free processors: a strict weak order. -/
theorem preferred_strictWeak (plain : cfg.loadBalancing = false) :
    StrictWeak (preferred cfg : NodeInfo F → NodeInfo F → Bool) where
  asymm a b before := by
    unfold preferred at before ⊢
    cases one : a.dynamic <;> cases two : b.dynamic <;> simp_all <;> omega
  cotrans a b c before := by
    unfold preferred at before ⊢
    cases one : a.dynamic <;> cases two : b.dynamic <;> cases three : c.dynamic <;>
      simp_all <;> omega

theorem preferred_of_kind (plain : cfg.loadBalancing = false) {a b : NodeInfo F}
    (same : a.dynamic = b.dynamic) : preferred cfg a b = decide (a.freeCPUs < b.freeCPUs) := by
  simp [preferred, same, plain]

variable {info : ServerInfo F} {j : JobInfo} {n : NodeInfo F}

theorem findNodeForJob_single (single : j.nodes ≤ 1) :
    findNodeForJob cfg info j = (stableSort (preferred cfg) (candidates info j)).head? := by
  rw [findNodeForJob, if_neg]
  simp only [tooFewNodes, Bool.and_eq_true, decide_eq_true_eq, not_and]
  omega

/-- A single-node job gets no node exactly if no schedulable node satisfies it, and otherwise
the first of the best: static if there is a static one, with the fewest free processors of
its kind. -/
theorem node_choice (cfg : Config) (info : ServerInfo F) (j : JobInfo)
    (plain : cfg.loadBalancing = false) (single : j.nodes ≤ 1) (positive : 0 < j.cpuReq)
    (counted : ∀ n ∈ info.nodes, n.Counted) :
    (findNodeForJob cfg info j = none ↔ ∀ n ∈ info.nodes, ¬ Suitable info.queues j n) ∧
    ∀ n, findNodeForJob cfg info j = some n → Suitable info.queues j n ∧
      ((∃ m ∈ info.nodes, Suitable info.queues j m ∧ m.dynamic = false) → n.dynamic = false) ∧
      ∃ front back, info.nodes = front ++ n :: back ∧
        (∀ m ∈ front, Suitable info.queues j m → m.dynamic = n.dynamic →
          n.freeCPUs < m.freeCPUs) ∧
        ∀ m ∈ back, Suitable info.queues j m → m.dynamic = n.dynamic → n.freeCPUs ≤ m.freeCPUs := by
  have listed (n : NodeInfo F) : n ∈ candidates info j ↔ n ∈ info.nodes ∧ Suitable info.queues j n :=
    mem_candidates_iff counted positive
  rw [findNodeForJob_single single]
  constructor
  · have empty : (stableSort (preferred cfg) (candidates info j)).head? = none ↔
        candidates info j = [] := by
      rw [List.head?_eq_none_iff, stableSort, ← List.length_eq_zero_iff, List.length_insertionSort,
        List.length_eq_zero_iff]
    rw [empty, List.eq_nil_iff_forall_not_mem]
    simp only [listed, not_and]
  · intro n chosen
    obtain ⟨before, after, shape, strict, kept⟩ :=
      (preferred_strictWeak plain).head_insertionSort chosen
    have others (m : NodeInfo F) (member : m ∈ info.nodes) (suits : Suitable info.queues j m) :
        m = n ∨ m ∈ before ∨ m ∈ after := by
      have found : m ∈ before ++ n :: after := shape ▸ (listed m).mpr ⟨member, suits⟩
      simpa [or_left_comm] using found
    have suitable : Suitable info.queues j n := ((listed n).mp (by simp [shape])).2
    refine ⟨suitable, ?_, ?_⟩
    · rintro ⟨m, member, suits, static⟩
      rcases others m member suits with rfl | earlier | later
      · exact static
      · have first := strict m earlier
        by_contra dynamic
        simp [preferred, dynamic, static] at first
      · have first := kept m later
        by_contra dynamic
        simp [preferred, dynamic, static] at first
    · -- the filtered list split at the node gives the split of the whole list
      rw [candidates] at shape
      obtain ⟨front, rest, whole, frontKept, restKept⟩ := List.filter_eq_append_iff.mp shape
      obtain ⟨passed, back, rfl, dropped, -, backKept⟩ := List.filter_eq_cons_iff.mp restKept
      have place : info.nodes = (front ++ passed) ++ n :: back := by rw [whole, List.append_assoc]
      refine ⟨front ++ passed, back, place, ?_, ?_⟩
      · intro m member suits same
        have candidate := (listed m).mpr ⟨place ▸ List.mem_append_left _ member, suits⟩
        have pass := (List.mem_filter.mp candidate).2
        rcases List.mem_append.mp member with early | between
        · have first := strict m (frontKept ▸ List.mem_filter.mpr ⟨early, pass⟩)
          rw [preferred_of_kind plain same.symm] at first
          exact of_decide_eq_true first
        · exact absurd pass (dropped m between)
      · intro m member suits same
        have candidate := (listed m).mpr
          ⟨place ▸ List.mem_append_right _ (List.mem_cons_of_mem _ member), suits⟩
        have pass := (List.mem_filter.mp candidate).2
        have first := kept m (backKept ▸ List.mem_filter.mpr ⟨member, pass⟩)
        rw [preferred_of_kind plain same] at first
        exact not_lt.mp (of_decide_eq_false first)

/-- Two busy local nodes and a cloud node. -/
def threeNodes : List (NodeInfo Unit) :=
  [{ name := "cloud", state := "free", freeCPUs := 1, loadAvg := (), dynamic := true },
    { name := "n1", state := "free", freeCPUs := 4, loadAvg := () },
    { name := "n2", state := "free", freeCPUs := 2, loadAvg := () }]

/-- The local node with fewer free processors is taken. -/
theorem node_choice_local : ∃ n : NodeInfo Unit,
    findNodeForJob {} { queues := [], nodes := threeNodes } { id := "0.server" } = some n ∧
      n.name = "n2" ∧ Suitable [] { id := "0.server" } n := by
  have counted : ∀ n ∈ threeNodes, n.Counted := by
    intro n member name
    simp only [threeNodes, List.mem_cons, List.not_mem_nil, or_false] at member
    rcases member with rfl | rfl | rfl <;> simp [maxInt]
  refine ⟨_, rfl, rfl, ?_⟩
  exact ((node_choice {} { queues := [], nodes := threeNodes } { id := "0.server" } rfl (by decide)
    (by decide) counted).2 _ rfl).1

end Preference

section Counts
variable {F : Type}

theorem count_insert {m : Assoc Int} {name : String} {v : Int}
    (count : 0 ≤ (m.lookup name).getD 0 ∧ (m.lookup name).getD 0 ≤ maxInt) (range : 0 ≤ v ∧ v ≤ maxInt)
    (key : String) : 0 ≤ ((m.insert key v).lookup name).getD 0 ∧
      ((m.insert key v).lookup name).getD 0 ≤ maxInt := by
  rw [Assoc.lookup_insert_ite]
  split
  · exact range
  · exact count

theorem NodeInfo.Counted.setGRes {n : NodeInfo F} (counted : n.Counted) (name value : String) :
    (n.setGRes name value).Counted := by
  unfold NodeInfo.setGRes
  split
  · exact counted
  case h_2 v read =>
    obtain ⟨parsed, nonneg⟩ := Option.filter_eq_some_iff.mp read
    have range : 0 ≤ v ∧ v ≤ maxInt := ⟨of_decide_eq_true nonneg, (parseInt_fits parsed).2⟩
    split
    · exact fun key => ⟨count_insert (counted key).1 range _, (counted key).2⟩
    · exact fun key => ⟨(counted key).1, count_insert (counted key).2 range _⟩
    · exact counted

variable [GoFloat F]

theorem NodeInfo.Counted.read {n : NodeInfo F} (counted : n.Counted) (used : Bool) (a : Pbs.Attr) :
    (NodeInfo.read (n, used) a).1.Counted := by
  unfold NodeInfo.read
  dsimp only
  split
  case h_12 => exact counted.setGRes _ _
  case h_3 => split <;> exact counted
  case h_4 => split <;> exact counted
  case h_6 => split <;> exact counted
  all_goals exact counted

theorem counted_parseNodeInfo (obj : Pbs.StatusObject) : (parseNodeInfo obj : NodeInfo F).Counted := by
  have start : ({ name := obj.name, loadAvg := GoFloat.zero } : NodeInfo F).Counted :=
    fun name => by simp [maxInt]
  have folded : (obj.attrs.foldl NodeInfo.read
      (({ name := obj.name, loadAvg := GoFloat.zero } : NodeInfo F), false)).1.Counted :=
    List.foldlRecOn (motive := fun p : NodeInfo F × Bool => p.1.Counted) _ _ start
      fun p counted a _ => counted.read p.2 a
  unfold parseNodeInfo NodeInfo.settle
  split
  case h_1 n same =>
    rw [same] at folded
    exact folded
  case h_2 n same =>
    rw [same] at folded
    exact folded

end Counts
end OpenTorque.Sched
