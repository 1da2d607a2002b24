import OpenTorque.Mom.Daemon
import OpenTorque.Server.Release

/-! The check of recovered jobs against the MOMs. The server asks one MOM for each running job
and reads the ids it runs from one line of text; the MOM writes that line from its job table. -/
namespace OpenTorque

namespace Mom.Daemon

/-- `RunningJobs`: the ids of the jobs that run or are ending, in the order of the loop. -/
def runningJobs (m : Daemon) (order : RangeOrder) : List String :=
  (m.jobs.range order).filter fun id => (m.jobs.lookup id).any (·.state ≠ .queued)

/-- The text with which `handleMomStatus` answers the query `jobs`; without running jobs it is
the empty text that every status has. -/
def momStatusJobs (m : Daemon) (order : RangeOrder) : String := Text.join "," (m.runningJobs order)

/-- The job is among those a MOM runs. -/
def Keeps (m : Daemon) (id : String) : Prop := ∃ j, m.jobs.lookup id = some j ∧ j.state ≠ .queued

theorem mem_runningJobs (m : Daemon) (order : RangeOrder) (id : String) :
    id ∈ m.runningJobs order ↔ m.Keeps id := by
  simp only [runningJobs, List.mem_filter, Assoc.mem_range, Option.any_eq_true, decide_eq_true_eq, Keeps]
  refine and_iff_right_of_imp ?_
  rintro ⟨j, found, -⟩
  exact Assoc.mem_of_lookup found

def running (id : String) : Daemon := { jobs := (∅ : Assoc Job).insert id { state := .running } }

theorem keeps_running (id x : String) : (running id).Keeps x ↔ x = id := by
  by_cases same : x = id
  · subst same
    exact iff_of_true ⟨_, AList.lookup_insert _, nofun⟩ rfl
  · refine iff_of_false ?_ same
    rintro ⟨j, found, -⟩
    rw [running, AList.lookup_insert_ne same] at found
    cases found

end Mom.Daemon

namespace Pbs

/-- The address `momAddr` gives for a node. -/
def Node.momAddr (n : Node) (name : String) : String × Int :=
  (n.momHost name, if n.momPort = 0 then 15002 else n.momPort)

/-- The ids `momRunningJobs` reads from a reply. -/
def runningSet (val : String) : List String :=
  ((Text.split ',' val).map Text.trimSpace).filter (· ≠ "")

/-- The daemons that answer, by address, and the orders of their job tables. -/
structure Moms where
  daemon : String × Int → Option Mom.Daemon
  order : String × Int → RangeOrder := fun _ => .listed

/-- An id that comes through the line of ids as it is. -/
structure PlainID (id : String) : Prop where
  trimmed : Text.trimSpace id = id
  nonempty : id ≠ ""
  comma : ',' ∉ id.toList

/-- An id is read back from a line exactly when one of the ids written there is split and
trimmed into it. -/
theorem mem_runningSet_join (ids : List String) (id : String) :
    id ∈ runningSet (Text.join "," ids) ↔ id ≠ "" ∧ ∃ other ∈ ids, ∃ part ∈ Text.split ',' other,
      Text.trimSpace part = id := by
  rw [runningSet, List.mem_filter, List.mem_map, decide_eq_true_eq, and_comm]
  refine and_congr_right fun filled => ?_
  by_cases none : ids = []
  · subst none
    have empty : Text.split ',' (Text.join "," []) = [""] := by decide
    simp [empty, show Text.trimSpace "" = "" by decide, Ne.symm filled]
  · have parts : Text.split ',' (Text.join "," ids) = _ := Text.split_join_flatMap rfl none
    simp only [parts, List.mem_flatMap]
    constructor
    · rintro ⟨part, ⟨other, member, inside⟩, rfl⟩
      exact ⟨other, member, part, inside, rfl⟩
    · rintro ⟨other, member, part, inside, rfl⟩
      exact ⟨part, ⟨other, member, inside⟩, rfl⟩

theorem runningSet_idle (order : RangeOrder) : runningSet (({} : Mom.Daemon).momStatusJobs order) = [] := by
  have none : ({} : Mom.Daemon).runningJobs order = [] := by
    simp [Mom.Daemon.runningJobs]
  rw [Mom.Daemon.momStatusJobs, none]
  decide

namespace PlainID
variable {id : String}

/-- A plain id in the table of a MOM is in the set the server reads. -/
theorem mem_runningSet (plain : PlainID id) {ids : List String} (member : id ∈ ids) :
    id ∈ runningSet (Text.join "," ids) :=
  (mem_runningSet_join ids id).mpr
    ⟨plain.nonempty, id, member, id, by simp [Text.split_of_not_mem plain.comma], plain.trimmed⟩

/-- Only a plain id comes through the line as it is. -/
theorem of_mem_runningSet {ids : List String} (only : ∀ other ∈ ids, other = id)
    (read : id ∈ runningSet (Text.join "," ids)) : PlainID id := by
  obtain ⟨filled, other, member, part, inside, trimmed⟩ := (mem_runningSet_join ids id).mp read
  obtain rfl := only other member
  have comma : ',' ∉ other.toList := by
    intro there
    rw [← trimmed] at there
    exact Text.not_mem_of_mem_split inside (Text.subset_of_trimSpace part there)
  have whole : Text.split ',' other = [other] := Text.split_of_not_mem comma
  rw [whole, List.mem_singleton] at inside
  exact ⟨inside ▸ trimmed, filled, comma⟩

end PlainID

namespace Server
variable {s t : Server} {env : Env} {id key name x : String} {j : Job} {answer : String → Option (List String)}

/-- `momRunningJobs` for the node of that name; `none` stands for a MOM that does not answer. -/
def momRunningJobs (s : Server) (moms : Moms) (name : String) : Option (List String) := do
  let n ← s.nodeMgr.lookup name
  let m ← moms.daemon (n.momAddr name)
  pure (runningSet (m.momStatusJobs (moms.order (n.momAddr name))))

/-- Every node of the job has been reached and does not run it. -/
def Confirmed (s : Server) (moms : Moms) (id : String) (j : Job) : Prop :=
  ∀ name ∈ Job.hostNames j.execHost, ∃ n m, s.nodeMgr.lookup name = some n ∧
    moms.daemon (n.momAddr name) = some m ∧ ¬ m.Keeps id

/-- The pass over the running jobs puts the job back into its queue. -/
def Requeues (s : Server) (env : Env) (moms : Moms) (id : String) : Prop :=
  ∃ k, (s.reconcileRunningJobsWithMOMs env (s.momRunningJobs moms)).job id = some k ∧ k.state = .queued

/-- The answer for the first host lets the pass put the job back. -/
def Lost (s : Server) (answer : String → Option (List String)) (id : String) (j : Job) : Prop :=
  j.execHost ≠ "" ∧ Text.before '/' (Text.before '+' j.execHost) ∈ s.nodeMgr ∧
    ∃ running, answer (Text.before '/' (Text.before '+' j.execHost)) = some running ∧ id ∉ running

theorem reconcile_cases (env : Env) (answer : String → Option (List String)) (found : s.job id = some j) (running : j.state = .running) :
    (s.Lost answer id j ∧ reconcile env answer s id = s.requeueRecoveredJob env id j) ∨
    (¬ s.Lost answer id j ∧ reconcile env answer s id = s) := by
  have held : s.jobMgr.jobs.lookup id = some j := found
  rw [reconcile, held]
  simp only [Lost]
  split
  case isTrue skipped =>
    refine .inr ⟨?_, rfl⟩
    rintro ⟨placed, known, -⟩
    rcases skipped with other | unplaced | unknown
    · exact other running
    · exact placed unplaced
    · exact unknown known
  case isFalse placed =>
    simp only [not_or, not_not] at placed
    split
    case h_1 silent => exact .inr ⟨by simp [silent], rfl⟩
    case h_2 set told =>
      split
      case isTrue still =>
        refine .inr ⟨?_, rfl⟩
        rintro ⟨-, -, set', told', gone⟩
        refine gone ?_
        rw [told] at told'
        cases told'
        exact still
      case isFalse gone => exact .inl ⟨⟨placed.2.1, placed.2.2, set, told, gone⟩, rfl⟩

theorem job_requeueRecoveredJob : (s.requeueRecoveredJob env id j).job =
    Function.update s.job id (some ((j.setExec "" 0).setState env.now .queued)) := by
  rw [requeueRecoveredJob, job_requeue, job_releaseOn]

/-- The check of one job touches no other job, and no node leaves the table. -/
theorem reconcile_frame (env : Env) (answer : String → Option (List String)) (s : Server) (id : String) :
    (∀ x, x ≠ id → (reconcile env answer s id).job x = s.job x) ∧
      ∀ name, name ∈ (reconcile env answer s id).nodeMgr ↔ name ∈ s.nodeMgr := by
  rw [reconcile]
  split
  · exact ⟨fun _ _ => rfl, fun _ => .rfl⟩
  simp only
  split
  · exact ⟨fun _ _ => rfl, fun _ => .rfl⟩
  split
  · exact ⟨fun _ _ => rfl, fun _ => .rfl⟩
  split
  · exact ⟨fun _ _ => rfl, fun _ => .rfl⟩
  · refine ⟨fun x other => ?_, fun name => mem_releaseOn⟩
    rw [job_requeueRecoveredJob, Function.update_of_ne other]

theorem reconcileAll_other (ids : List String) (outside : x ∉ ids) :
    (ids.foldl (reconcile env answer) s).job x = s.job x :=
  List.foldlRecOn (motive := fun t : Server => t.job x = s.job x) ids _ rfl fun t same id member =>
    ((reconcile_frame env answer t id).1 x (by rintro rfl; exact outside member)).trans same

theorem reconcileAll_job (env : Env) (answer : String → Option (List String)) (ids : List String) (nodup : ids.Nodup) (listed : id ∈ ids)
    (found : s.job id = some j) (running : j.state = .running) :
    (ids.foldl (reconcile env answer) s).job id =
        some ((j.setExec "" 0).setState env.now .queued) ∧ s.Lost answer id j ∨
      (ids.foldl (reconcile env answer) s).job id = some j ∧ ¬ s.Lost answer id j := by
  induction ids generalizing s with
  | nil => cases listed
  | cons first ids ih =>
    rw [List.nodup_cons] at nodup
    rw [List.foldl_cons]
    by_cases here : id = first
    · subst here
      rw [reconcileAll_other ids nodup.1]
      rcases reconcile_cases env answer found running with ⟨lost, after⟩ | ⟨kept, after⟩
      · left
        rw [after, job_requeueRecoveredJob, Function.update_self]
        exact ⟨rfl, lost⟩
      · right
        rw [after]
        exact ⟨found, kept⟩
    · obtain ⟨others, nodes⟩ := reconcile_frame env answer s first
      have same : (reconcile env answer s first).Lost answer id j ↔ s.Lost answer id j := by
        rw [Lost, nodes]
        rfl
      rw [← same]
      exact ih nodup.2 ((List.mem_cons.mp listed).resolve_left here) ((others id here).trans found)

/-- The pass puts a job back exactly when the MOM of its first host answers without it. -/
theorem requeues_iff (env : Env) (moms : Moms) (found : s.job id = some j)
    (running : j.state = .running) :
    s.Requeues env moms id ↔ s.Lost (s.momRunningJobs moms) id j := by
  have listed : id ∈ s.allJobs env := (Assoc.mem_range ..).mpr (Assoc.mem_of_lookup found)
  rcases reconcileAll_job env (s.momRunningJobs moms) (s.allJobs env) (Assoc.nodup_range ..) listed found
    running with ⟨after, lost⟩ | ⟨after, kept⟩
  · exact iff_of_true ⟨_, after, rfl⟩ lost
  · refine iff_of_false ?_ kept
    rintro ⟨k, queued, state⟩
    rw [reconcileRunningJobsWithMOMs, after] at queued
    cases queued
    rw [running] at state
    cases state

theorem lost_iff (s : Server) (moms : Moms) (id : String) (j : Job) :
    s.Lost (s.momRunningJobs moms) id j ↔ j.execHost ≠ "" ∧
      ∃ n m, s.nodeMgr.lookup (Text.before '/' (Text.before '+' j.execHost)) = some n ∧
        moms.daemon (n.momAddr (Text.before '/' (Text.before '+' j.execHost))) = some m ∧
        id ∉ runningSet (m.momStatusJobs
          (moms.order (n.momAddr (Text.before '/' (Text.before '+' j.execHost))))) := by
  rw [Lost]
  refine and_congr_right fun _ => ?_
  constructor
  · rintro ⟨-, set, told, gone⟩
    obtain ⟨n, known, told⟩ := Option.bind_eq_some_iff.mp told
    obtain ⟨m, reached, told⟩ := Option.bind_eq_some_iff.mp told
    cases told
    exact ⟨n, m, known, reached, gone⟩
  · rintro ⟨n, m, known, reached, gone⟩
    exact ⟨Assoc.mem_of_lookup known, _, by simp [momRunningJobs, known, reached], gone⟩

theorem first_mem_hostNames (j : Job) :
    Text.before '/' (Text.before '+' j.execHost) ∈ Job.hostNames j.execHost := by
  obtain ⟨rest, parts⟩ := Text.split_eq_before_cons '+' j.execHost
  rw [Job.hostNames, parts]
  exact List.mem_cons_self

/-- All nodes of the job are known, and one MOM serves them. -/
def OneMom (s : Server) (j : Job) : Prop :=
  ∃ addr, ∀ name ∈ Job.hostNames j.execHost, ∃ n, s.nodeMgr.lookup name = some n ∧ n.momAddr name = addr

/-- Whatever the MOMs run and whichever of them answer, the pass puts back only what all nodes
of the job have given up, exactly when it asks none of them or when the job has one MOM and an
id that the reply can carry. -/
theorem reconcile_safe_iff (s : Server) (env : Env) (id : String) (j : Job)
    (found : s.job id = some j) (running : j.state = .running) :
    (∀ moms, s.Requeues env moms id → s.Confirmed moms id j) ↔
      j.execHost = "" ∨ Text.before '/' (Text.before '+' j.execHost) ∉ s.nodeMgr ∨
        (PlainID id ∧ s.OneMom j) := by
  simp only [requeues_iff env _ found running, lost_iff]
  constructor
  · intro safe
    by_cases empty : j.execHost = ""
    · exact .inl empty
    by_cases unknown : Text.before '/' (Text.before '+' j.execHost) ∉ s.nodeMgr
    · exact .inr (.inl unknown)
    right; right
    obtain ⟨n, known⟩ := Assoc.exists_lookup (not_not.mp unknown)
    constructor
    · -- At every address is a MOM that runs this job and no other.
      by_contra mangled
      have unread : ∀ order, id ∉ runningSet ((Mom.Daemon.running id).momStatusJobs order) :=
        fun order read => mangled (.of_mem_runningSet (fun other member =>
          (Mom.Daemon.keeps_running ..).mp ((Mom.Daemon.mem_runningJobs _ order other).mp member)) read)
      obtain ⟨_, m, -, reached, free⟩ := safe { daemon := fun _ => some (.running id) }
        ⟨empty, n, _, known, rfl, unread _⟩ _ (first_mem_hostNames j)
      obtain rfl := Option.some.inj reached
      exact free ((Mom.Daemon.keeps_running ..).mpr rfl)
    · -- Only the first host answers, and nothing runs there.
      refine ⟨n.momAddr (Text.before '/' (Text.before '+' j.execHost)), fun name host => ?_⟩
      obtain ⟨k, m, present, reached, -⟩ := safe
        { daemon := fun addr => if addr = n.momAddr (Text.before '/' (Text.before '+' j.execHost)) then
            some {} else none }
        ⟨empty, n, {}, known, if_pos rfl, by simp [runningSet_idle]⟩ name host
      refine ⟨k, present, ?_⟩
      by_contra elsewhere
      simp [elsewhere] at reached
  · rintro (empty | unknown | ⟨plain, addr, one⟩) moms ⟨placed, n, m, known, reached, gone⟩
    · exact absurd empty placed
    · exact absurd (Assoc.mem_of_lookup known) unknown
    · obtain ⟨n', known', here⟩ := one _ (first_mem_hostNames j)
      obtain rfl := Option.some.inj (known.symm.trans known')
      intro name host
      obtain ⟨k, present, there⟩ := one name host
      refine ⟨k, m, present, by rw [there, ← here, reached], fun keeps => gone ?_⟩
      exact plain.mem_runningSet ((m.mem_runningJobs _ id).mpr keeps)

theorem reconcile_safe_of_single_host :
    let s := fromEmpty (atOnce sharedRun)
    ∃ j, s.job "1.server" = some j ∧
      ∀ moms, s.Requeues { now := 2 } moms "1.server" → s.Confirmed moms "1.server" j := by
  intro s
  have facts : (s.job "1.server").any (fun j => j.state = .running ∧ Job.hostNames j.execHost = ["n1"]) =
      true := by decide +kernel
  have node : (s.nodeMgr.lookup "n1").map (·.momAddr "n1") = some ("n1", 15002) := by decide +kernel
  obtain ⟨j, found, holds⟩ := (Option.any_eq_true _ _).mp facts
  obtain ⟨running, hosts⟩ := of_decide_eq_true holds
  obtain ⟨n, known, addr⟩ := Option.map_eq_some_iff.mp node
  refine ⟨j, found, (reconcile_safe_iff s { now := 2 } "1.server" j found running).mpr
    (.inr (.inr ⟨⟨by decide, by decide, by decide⟩, ("n1", 15002), fun name host => ?_⟩))⟩
  obtain rfl : name = "n1" := by simpa [hosts] using host
  exact ⟨n, known, addr⟩

/-- Nothing runs at the first address; everywhere else the job does. -/
def secondRuns : Moms :=
  { daemon := fun addr => some (if addr = ("n1", 15002) then {} else .running "0.server") }

/-- The job is put back while it runs on its second node. -/
theorem requeued_while_second_host_runs :
    let s := fromEmpty pairRun
    ∃ j n m, s.job "0.server" = some j ∧ j.state = .running ∧
      "n2" ∈ Job.hostNames j.execHost ∧ s.nodeMgr.lookup "n2" = some n ∧
      secondRuns.daemon (n.momAddr "n2") = some m ∧ m.Keeps "0.server" ∧
      s.Requeues { now := 2 } secondRuns "0.server" ∧ ¬ s.Confirmed secondRuns "0.server" j := by
  intro s
  have facts : (s.job "0.server").any (fun j => j.state = .running ∧ "n2" ∈ Job.hostNames j.execHost) =
      true := by decide +kernel
  have node : (s.nodeMgr.lookup "n2").map (·.momAddr "n2") = some ("n2", 15002) := by decide +kernel
  have after : ((s.reconcileRunningJobsWithMOMs { now := 2 } (s.momRunningJobs secondRuns)).job
      "0.server").any (·.state = .queued) = true := by decide +kernel
  obtain ⟨j, found, holds⟩ := (Option.any_eq_true _ _).mp facts
  obtain ⟨running, host⟩ := of_decide_eq_true holds
  obtain ⟨n, known, addr⟩ := Option.map_eq_some_iff.mp node
  obtain ⟨k, requeued, queued⟩ := (Option.any_eq_true _ _).mp after
  have reached : secondRuns.daemon (n.momAddr "n2") = some (.running "0.server") := by
    rw [addr]
    rfl
  have keeps : (Mom.Daemon.running "0.server").Keeps "0.server" := (Mom.Daemon.keeps_running ..).mpr rfl
  refine ⟨j, n, _, found, running, host, known, reached, keeps, ⟨k, requeued, of_decide_eq_true queued⟩, ?_⟩
  intro confirmed
  obtain ⟨n', m, known', reached', free⟩ := confirmed "n2" host
  obtain rfl := Option.some.inj (known.symm.trans known')
  obtain rfl := Option.some.inj (reached.symm.trans reached')
  exact free keeps

end Server

end Pbs

end OpenTorque
