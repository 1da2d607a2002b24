import OpenTorque.Server.Gates

/-! The intervals a queue sets for the resources of a job. Requests and limits are texts;
what such a text says is an integer of any size, and the gate compares what `int64`
arithmetic makes of it, zero for a text that is not a number. -/
namespace OpenTorque.Pbs

def decimal (s : String) : Option Int :=
  if s.toList ≠ [] ∧ s.toList.all Char.isDigit then some (Nat.ofDigitChars 10 s.toList 0) else none

/-- The seconds of `HH:MM:SS`, `MM:SS` or a plain number. -/
def writtenSeconds (s : String) : Option Int :=
  match (Text.split ':' s).map decimal with
  | [some h, some m, some sec] => some (h * 3600 + m * 60 + sec)
  | [some m, some sec] => some (m * 60 + sec)
  | [some sec] => some sec
  | _ => none

/-- The kilobytes of a number with or without a unit. -/
def writtenKB (s : String) : Option Int :=
  let s := Text.trimSpace (Text.toLower s)
  match memSuffixes.findSome? fun (suffix, mult) =>
      (Text.beforeSuffix suffix s).map (·, mult) with
  | some (number, mult) => (decimal number).map (· * mult)
  | none => decimal s

/-- What a text says about a resource, in the formats that are documented for it. -/
def written (name v : String) : Option Int :=
  match name with
  | "ncpus" => decimal v
  | "walltime" => writtenSeconds v
  | "mem" => writtenKB v
  | _ => none

/-- The resources `checkResourceInterval` looks at. -/
def intervalNames : List String := ["ncpus", "walltime", "mem"]

theorem decimal_nonneg (read : decimal s = some n) : 0 ≤ n := by
  rw [decimal, Option.ite_none_right_eq_some] at read
  obtain rfl := Option.some.inj read.2
  exact Int.natCast_nonneg _

theorem parseIntOrZero_decimal (read : decimal s = some n) (fits : n ≤ maxInt) :
    parseIntOrZero s = n := by
  rw [decimal, Option.ite_none_right_eq_some] at read
  obtain ⟨⟨filled, digits⟩, read⟩ := read
  obtain rfl := Option.some.inj read
  have plain : signed s.toList = (false, s.toList) := signed_of_digits (List.all_eq_true.mp digits)
  simp only [parseIntOrZero, plain]
  rw [if_neg (by simp [filled, digits]), List.takeWhile_eq_self_iff.mpr (List.all_eq_true.mp digits)]
  exact Int.min_eq_left fits

theorem parseWalltimeSec_written (read : writtenSeconds s = some n) (fits : n ≤ maxInt) :
    parseWalltimeSec s = n := by
  have low : minInt ≤ 0 := by decide
  unfold writtenSeconds at read
  split at read
  case h_1 h m sec parts =>
    obtain rfl := Option.some.inj read
    obtain ⟨a, _, split, hours, rest⟩ := List.map_eq_cons_iff.mp parts
    obtain ⟨b, _, rfl, minutes, rest⟩ := List.map_eq_cons_iff.mp rest
    obtain ⟨c, _, rfl, seconds, rest⟩ := List.map_eq_cons_iff.mp rest
    obtain rfl := List.map_eq_nil_iff.mp rest
    have := decimal_nonneg hours
    have := decimal_nonneg minutes
    have := decimal_nonneg seconds
    simp only [parseWalltimeSec, split, List.map_cons, List.map_nil,
      parseIntOrZero_decimal hours (by omega), parseIntOrZero_decimal minutes (by omega),
      parseIntOrZero_decimal seconds (by omega)]
    exact wrap64_of_fits (by omega) fits
  case h_2 m sec parts =>
    obtain rfl := Option.some.inj read
    obtain ⟨a, _, split, minutes, rest⟩ := List.map_eq_cons_iff.mp parts
    obtain ⟨b, _, rfl, seconds, rest⟩ := List.map_eq_cons_iff.mp rest
    obtain rfl := List.map_eq_nil_iff.mp rest
    have := decimal_nonneg minutes
    have := decimal_nonneg seconds
    simp only [parseWalltimeSec, split, List.map_cons, List.map_nil,
      parseIntOrZero_decimal minutes (by omega), parseIntOrZero_decimal seconds (by omega)]
    exact wrap64_of_fits (by omega) fits
  case h_3 sec parts =>
    obtain rfl := Option.some.inj read
    obtain ⟨a, _, split, seconds, rest⟩ := List.map_eq_cons_iff.mp parts
    obtain rfl := List.map_eq_nil_iff.mp rest
    obtain rfl := Text.split_eq_singleton split
    simp only [parseWalltimeSec, split, List.map_cons, List.map_nil]
    exact parseIntOrZero_decimal seconds fits
  case h_4 => cases read

theorem one_le_unit (found : memSuffixes.findSome? (fun (suffix, mult) =>
    (Text.beforeSuffix suffix s).map (·, mult)) = some (number, unit)) : 1 ≤ unit := by
  have all : ∀ e ∈ memSuffixes, 1 ≤ e.2 := by simp [memSuffixes]
  obtain ⟨e, member, shape⟩ := List.exists_of_findSome?_eq_some found
  obtain ⟨_, -, pair⟩ := Option.map_eq_some_iff.mp shape
  obtain rfl := congrArg Prod.snd pair
  exact all e member

theorem parseMemKB_written (read : writtenKB s = some n) (fits : n ≤ maxInt) :
    parseMemKB s = n := by
  revert read
  unfold writtenKB parseMemKB
  dsimp only
  cases found : memSuffixes.findSome? fun (suffix, mult) =>
    (Text.beforeSuffix suffix (Text.trimSpace (Text.toLower s))).map (·, mult) with
  | some unit =>
    intro read
    obtain ⟨v, value, rfl⟩ := Option.map_eq_some_iff.mp read
    have nonneg := decimal_nonneg value
    have small : v * 1 ≤ v * unit.2 := Int.mul_le_mul_of_nonneg_left (one_le_unit found) nonneg
    rw [mul_one] at small
    simp only [parseIntOrZero_decimal value (small.trans fits)]
    exact wrap64_of_fits (le_trans (by decide) (le_trans nonneg small)) fits
  | none => exact fun read => parseIntOrZero_decimal read fits

/-- The code computes what a text says if that is in the range of `int64`. -/
theorem rescValue_written (read : written name v = some n) (fits : n ≤ maxInt) :
    rescValue name v = n := by
  unfold written at read
  unfold rescValue
  split at read
  · exact parseIntOrZero_decimal read fits
  · exact parseWalltimeSec_written read fits
  · exact parseMemKB_written read fits
  · cases read

-- Beyond it the products wrap: some 584 billion years are less than an hour.
example : rescValue "walltime" "5124095576030432:00:00" = 3584 := by decide +kernel

theorem rescValue_le (name v : String) : rescValue name v ≤ maxInt := by
  unfold rescValue
  split
  · exact (parseIntOrZero_fits v).2
  · unfold parseWalltimeSec
    split
    · exact (wrap64_fits _).2
    · exact (wrap64_fits _).2
    · exact (parseIntOrZero_fits v).2
  · unfold parseMemKB
    dsimp only
    split
    · exact (wrap64_fits _).2
    · exact (parseIntOrZero_fits _).2
  · decide

theorem writtenSeconds_nonneg (read : writtenSeconds s = some n) : 0 ≤ n := by
  have each : ∀ part, some part ∈ (Text.split ':' s).map decimal → 0 ≤ part := by
    intro part member
    obtain ⟨_, -, value⟩ := List.mem_map.mp member
    exact decimal_nonneg value
  unfold writtenSeconds at read
  split at read
  case h_1 h m sec parts =>
    obtain rfl := Option.some.inj read
    rw [parts] at each
    have := each h (by simp)
    have := each m (by simp)
    have := each sec (by simp)
    omega
  case h_2 m sec parts =>
    obtain rfl := Option.some.inj read
    rw [parts] at each
    have := each m (by simp)
    have := each sec (by simp)
    omega
  case h_3 sec parts =>
    obtain rfl := Option.some.inj read
    rw [parts] at each
    exact each sec (by simp)
  case h_4 => cases read

theorem writtenKB_nonneg (read : writtenKB s = some n) : 0 ≤ n := by
  unfold writtenKB at read
  dsimp only at read
  split at read
  case h_1 found =>
    obtain ⟨v, value, rfl⟩ := Option.map_eq_some_iff.mp read
    exact Int.mul_nonneg (decimal_nonneg value) (le_trans (by decide) (one_le_unit found))
  case h_2 => exact decimal_nonneg read

theorem written_nonneg (read : written name v = some n) : 0 ≤ n := by
  unfold written at read
  split at read
  · exact decimal_nonneg read
  · exact writtenSeconds_nonneg read
  · exact writtenKB_nonneg read
  · cases read

namespace Queue
variable (q : Queue) (j : Job)

/-- A limit of the queue for a resource; the empty text if there is none. -/
def bound (limits : QueueLimits) (name : String) : String := ((q.resource limits).lookup name).getD ""

/-- Every limit that is set has a documented format. -/
def Documented : Prop :=
  ∀ name ∈ intervalNames, ∀ limits ∈ [QueueLimits.min, .max], q.bound limits name ≠ "" →
    (written name (q.bound limits name)).isSome

/-- Every minimum is in the range of `int64`. -/
def MinimaFit : Prop :=
  ∀ name ∈ intervalNames, ∀ n ∈ written name (q.bound .min name), n ≤ maxInt

/-- Every request is a number between the limits; next to a maximum it has to be one. -/
def Within : Prop :=
  ∀ name ∈ intervalNames, j.resource name ≠ "" →
    (∀ v ∈ written name (j.resource name),
      (∀ low ∈ written name (q.bound .min name), low ≤ v) ∧
      ∀ high ∈ written name (q.bound .max name), v ≤ high) ∧
    (q.bound .max name ≠ "" → (written name (j.resource name)).isSome)

instance : Decidable q.Documented :=
  inferInstanceAs (Decidable (∀ name ∈ intervalNames, ∀ limits ∈ [QueueLimits.min, .max],
    q.bound limits name ≠ "" → (written name (q.bound limits name)).isSome))

instance : Decidable q.MinimaFit :=
  inferInstanceAs (Decidable (∀ name ∈ intervalNames,
    ∀ n ∈ written name (q.bound .min name), n ≤ maxInt))

instance : Decidable (q.Within j) :=
  inferInstanceAs (Decidable (∀ name ∈ intervalNames, j.resource name ≠ "" →
    (∀ v ∈ written name (j.resource name),
      (∀ low ∈ written name (q.bound .min name), low ≤ v) ∧
      ∀ high ∈ written name (q.bound .max name), v ≤ high) ∧
    (q.bound .max name ≠ "" → (written name (j.resource name)).isSome)))

end Queue

/-- Every request is a number in the range of `int64`. -/
def Job.RequestsFit (j : Job) : Prop :=
  ∀ name ∈ intervalNames, j.resource name ≠ "" → ∃ n ∈ written name (j.resource name), n ≤ maxInt

instance (j : Job) : Decidable j.RequestsFit :=
  inferInstanceAs (Decidable (∀ name ∈ intervalNames, j.resource name ≠ "" →
    ∃ n ∈ written name (j.resource name), n ≤ maxInt))

theorem checkResource_isOk (id : String) : (checkResource q j id name).isOk = true ↔
    (j.resource name ≠ "" →
      (q.bound .min name ≠ "" →
        rescValue name (q.bound .min name) ≤ rescValue name (j.resource name)) ∧
      (q.bound .max name ≠ "" → 0 ≤ rescValue name (q.bound .max name) →
        rescValue name (j.resource name) ≤ rescValue name (q.bound .max name))) := by
  unfold Queue.bound
  simp only [checkResource]
  generalize ((q.resource .min).lookup name).getD "" = low
  generalize ((q.resource .max).lookup name).getD "" = high
  split
  case isTrue none => simp [none, Except.isOk, Except.toBool]
  case isFalse requested =>
    split
    case isTrue below => simp [requested, below, Except.isOk, Except.toBool]
    case isFalse above =>
      split
      case isTrue beyond => simp [requested, beyond, Except.isOk, Except.toBool]
      case isFalse inside =>
        simp only [not_and, not_lt] at above inside
        exact ⟨fun _ _ => ⟨above, inside⟩, fun _ => rfl⟩

theorem checkResourceInterval_isOk (id : String) : (checkResourceInterval q j id).isOk = true ↔
    ∀ name ∈ intervalNames, (checkResource q j id name).isOk = true := by
  simp only [checkResourceInterval, intervalNames, List.forall_mem_cons]
  cases checkResource q j id "ncpus" with
  | error => simp [bind, Except.bind, Except.isOk, Except.toBool]
  | ok =>
    cases checkResource q j id "walltime" with
    | error => simp [bind, Except.bind, Except.isOk, Except.toBool]
    | ok => simp [bind, Except.bind, Except.isOk, Except.toBool]

theorem written_empty (name : String) : written name "" = none := by
  unfold written
  split <;> decide

theorem bound_ne_empty {q : Queue} (read : written name (q.bound limits name) = some n) :
    q.bound limits name ≠ "" := by
  intro none
  rw [none, written_empty] at read
  cases read

/-- For requests and minima in range the gate keeps the interval. -/
theorem within_of_checked {id : String} (minima : q.MinimaFit) (requests : j.RequestsFit)
    (passed : (checkResourceInterval q j id).isOk = true) : q.Within j := by
  intro name member requested
  obtain ⟨v, value, fits⟩ := requests name member requested
  have each := (checkResourceInterval_isOk id).mp passed name member
  have checked := (checkResource_isOk id).mp each requested
  rw [rescValue_written value fits] at checked
  refine ⟨fun v' value' => ?_, fun _ => Option.isSome_iff_exists.mpr ⟨v, value⟩⟩
  obtain rfl := Option.some.inj (value.symm.trans value')
  refine ⟨fun low lowest => ?_, fun high highest => ?_⟩
  · have above := checked.1 (bound_ne_empty lowest)
    rwa [rescValue_written lowest (minima name member low lowest)] at above
  · by_cases large : high ≤ maxInt
    · have below := checked.2 (bound_ne_empty highest)
      rw [rescValue_written highest large] at below
      exact below (written_nonneg highest)
    · omega

/-- A queue with nothing but limits on resources. -/
def resourceQueue (resource : QueueLimits → Assoc String) : Queue := { resource }

theorem admitToQueue_resourceQueue (resource : QueueLimits → Assoc String) (jm : JobManager)
    (name id : String) (j : Job) (user : String) (fromRoute : Bool) :
    ((resourceQueue resource).admitToQueue jm name id j user fromRoute).isOk =
      (checkResourceInterval (resourceQueue resource) j id).isOk := by
  have anyWay : (resourceQueue resource).fromRouteOnly = false := by
    show Queue.attrTrue (((∅ : Assoc String).lookup "from_route_only").getD "") = false
    decide
  rw [Queue.admitToQueue_isOk, anyWay]
  simp [resourceQueue, Queue.reached, Queue.allows, Queue.passesHosts]

def maxText : String := itoa maxInt

theorem written_maxText (member : name ∈ intervalNames) : written name maxText = some maxInt := by
  have all : ∀ name ∈ intervalNames, written name maxText = some maxInt := by decide +kernel
  exact all name member

theorem bound_resourceQueue (resource : QueueLimits → Assoc String) (limits : QueueLimits)
    (name : String) :
    (resourceQueue resource).bound limits name = ((resource limits).lookup name).getD "" := rfl

namespace Queue

/-- The gate of a queue keeps a job in its intervals, whatever else it looks at. -/
def KeepsInterval (q : Queue) (j : Job) : Prop :=
  ∀ jm name id user fromRoute, (q.admitToQueue jm name id j user fromRoute).isOk = true → q.Within j

end Queue

theorem keepsInterval_of_fit {q : Queue} {j : Job} (minima : q.MinimaFit)
    (requests : j.RequestsFit) : q.KeepsInterval j := by
  intro jm name id user fromRoute passed
  rw [Queue.admitToQueue_isOk] at passed
  simp only [Bool.and_eq_true] at passed
  exact within_of_checked minima requests passed.2.2.2.2.2.2.2.2.2.2.2

def widest (name : String) : Queue :=
  resourceQueue fun limits => if limits = .max then (∅ : Assoc String).insert name maxText else ∅

theorem widest_bound (limits : QueueLimits) (name other : String) :
    (widest name).bound limits other = if limits = .max ∧ other = name then maxText else "" := by
  rw [widest, bound_resourceQueue]
  by_cases upper : limits = .max
  · rw [if_pos upper, Assoc.lookup_insert_ite]
    by_cases same : other = name <;> simp [upper, same]
  · simp [upper]

theorem requestsFit_of_kept (kept : ∀ name ∈ intervalNames, (widest name).KeepsInterval j) :
    j.RequestsFit := by
  intro name member requested
  have passed : (checkResourceInterval (widest name) j "").isOk = true := by
    rw [checkResourceInterval_isOk]
    intro other listed
    rw [checkResource_isOk]
    intro _
    simp only [widest_bound]
    refine ⟨by simp, fun set _ => ?_⟩
    have same : other = name := by_contra fun apart => set (by simp [apart])
    subst same
    rw [if_pos (by simp), rescValue_written (written_maxText listed) le_rfl]
    exact rescValue_le _ _
  have within := kept name member { serverName := "" } "" "" "" false
    ((admitToQueue_resourceQueue ..).trans passed) name member requested
  have upper : (widest name).bound .max name = maxText := by simp [widest_bound]
  rw [upper] at within
  obtain ⟨v, value⟩ := Option.isSome_iff_exists.mp (within.2 (by decide +kernel))
  exact ⟨v, value, (within.1 v value).2 _ (written_maxText member)⟩

theorem widest_documented (name : String) : (widest name).Documented := by
  intro other listed limits _ set
  rw [widest_bound] at set ⊢
  split at set
  case isTrue same =>
    rw [if_pos same, written_maxText listed]
    rfl
  case isFalse => exact absurd rfl set

theorem widest_minimaFit (name : String) : (widest name).MinimaFit := by
  intro other _ n read
  simp [widest_bound, written_empty] at read

def lowest (q : Queue) : Queue :=
  resourceQueue fun limits => if limits = .min then q.resource .min else ∅

theorem lowest_bound (q : Queue) (limits : QueueLimits) (name : String) :
    (lowest q).bound limits name = if limits = .min then q.bound .min name else "" := by
  rw [lowest, bound_resourceQueue]
  by_cases lower : limits = .min
  · simp [lower, Queue.bound]
  · simp [lower]

def requesting (name v : String) : Job := { resourceReq := (∅ : Assoc String).insert name v }

theorem requesting_resource (name v other : String) :
    (requesting name v).resource other = if other = name then v else "" := by
  rw [Job.resource, requesting, Assoc.lookup_insert_ite]
  split <;> rfl

theorem minimaFit_of_kept {q : Queue}
    (kept : ∀ name ∈ intervalNames, (lowest q).KeepsInterval (requesting name maxText)) :
    q.MinimaFit := by
  intro name member n read
  have passed : (checkResourceInterval (lowest q) (requesting name maxText) "").isOk = true := by
    rw [checkResourceInterval_isOk]
    intro other listed
    rw [checkResource_isOk]
    intro requested
    simp only [requesting_resource, lowest_bound] at requested ⊢
    have same : other = name := by_contra fun apart => requested (by simp [apart])
    subst same
    simp only [if_true, reduceCtorEq, if_false, ne_eq, not_true_eq_false, IsEmpty.forall_iff, and_true]
    rw [rescValue_written (written_maxText listed) le_rfl]
    exact fun _ => rescValue_le _ _
  have requested : (requesting name maxText).resource name = maxText := by simp [requesting_resource]
  have within := kept name member { serverName := "" } "" "" "" false
    ((admitToQueue_resourceQueue ..).trans passed) name member (by rw [requested]; decide +kernel)
  rw [requested] at within
  exact (within.1 _ (written_maxText member)).1 n (by simpa [lowest_bound] using read)

theorem lowest_documented {q : Queue} (documented : q.Documented) : (lowest q).Documented := by
  intro name member limits _ set
  rw [lowest_bound] at set ⊢
  split at set
  case isTrue lower =>
    rw [if_pos lower]
    exact documented name member .min (by simp) set
  case isFalse => exact absurd rfl set

theorem requesting_fit (name : String) : (requesting name maxText).RequestsFit := by
  intro other listed requested
  rw [requesting_resource] at requested ⊢
  split at requested
  case isTrue same =>
    rw [if_pos same]
    exact ⟨maxInt, written_maxText listed, le_rfl⟩
  case isFalse => exact absurd rfl requested

/-- A job is kept in every interval exactly if its requests are numbers in the range of
`int64`, and minima keep every such job exactly if they are in range too. -/
theorem resource_interval_kept_iff (j : Job) (q : Queue) (documented : q.Documented) :
    ((∀ t : Queue, t.Documented → t.MinimaFit → t.KeepsInterval j) ↔ j.RequestsFit) ∧
    ((∀ t : Queue, t.Documented → t.resource .min = q.resource .min →
      ∀ i : Job, i.RequestsFit → t.KeepsInterval i) ↔ q.MinimaFit) := by
  refine ⟨⟨fun kept => ?_, fun requests t _ minima => ?_⟩,
    ⟨fun kept => ?_, fun minima t _ same i requests => ?_⟩⟩
  · exact requestsFit_of_kept fun name _ => kept _ (widest_documented name) (widest_minimaFit name)
  · exact keepsInterval_of_fit minima requests
  · exact minimaFit_of_kept fun name _ =>
      kept _ (lowest_documented documented) rfl _ (requesting_fit name)
  · refine keepsInterval_of_fit (fun name member n read => minima name member n ?_) requests
    rwa [Queue.bound, ← same]

/-- A queue with an interval for a resource, and a job that requests it. -/
def intervalRun (name low high v : String) : List Request :=
  [.manager (.createQueue "batch"
      [{ name := "resources_min", resc := name, hasResc := true, value := low },
        { name := "resources_max", resc := name, hasResc := true, value := high }]),
    .queueJob "alice@host" "batch"
      [{ name := "Resource_List", resc := name, hasResc := true, value := v }]]

theorem resource_interval_kept_for_cpus :
    let s := fromEmpty (atOnce (intervalRun "ncpus" "1" "8" "4"))
    ∃ j q, s.job "0.server" = some j ∧ s.queueMgr.lookup "batch" = some q ∧ q.KeepsInterval j := by
  intro s
  have facts : (s.job "0.server").any (fun j => (s.queueMgr.lookup "batch").any fun q =>
      q.Documented ∧ q.MinimaFit ∧ j.RequestsFit) = true := by decide +kernel
  obtain ⟨j, found, queue⟩ := (Option.any_eq_true _ _).mp facts
  obtain ⟨q, batch, holds⟩ := (Option.any_eq_true _ _).mp queue
  obtain ⟨documented, minima, requests⟩ := of_decide_eq_true holds
  exact ⟨j, q, found, batch, (resource_interval_kept_iff j q documented).1.mpr requests q documented minima⟩

/-- A request that is not a number counts as zero and passes a maximum. -/
theorem text_passes_maximum :
    let s := fromEmpty (atOnce (intervalRun "ncpus" "0" "8" "many"))
    ∃ j q, s.job "0.server" = some j ∧ s.queueMgr.lookup "batch" = some q ∧ q.Documented ∧
      (q.admitToQueue s.jobMgr "batch" "0.server" j j.owner false).isOk = true ∧ ¬ q.Within j := by
  intro s
  have facts : (s.job "0.server").any (fun j => (s.queueMgr.lookup "batch").any fun q =>
      q.Documented ∧ (q.admitToQueue s.jobMgr "batch" "0.server" j j.owner false).isOk = true ∧
        ¬ q.Within j) = true := by decide +kernel
  obtain ⟨j, found, queue⟩ := (Option.any_eq_true _ _).mp facts
  obtain ⟨q, batch, holds⟩ := (Option.any_eq_true _ _).mp queue
  exact ⟨j, q, found, batch, of_decide_eq_true holds⟩

end OpenTorque.Pbs
