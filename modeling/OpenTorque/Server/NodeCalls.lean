import OpenTorque.Core.Transition
import OpenTorque.Server.Node

/-! The calls that change what a node has free. The job-exclusive flag is set by a full
node and by any status report of a node with jobs, and cleared by the last job alone. -/
namespace OpenTorque.Pbs
open Transition

namespace Node
variable {n m : Node} {items : List String}

/-- What a status message leaves alone. -/
structure Kept (n m : Node) : Prop where
  admin : m.state.admin = n.state.admin
  slotsUsed : m.slotsUsed = n.slotsUsed
  assignedJobs : m.assignedJobs = n.assignedJobs
  properties : m.properties = n.properties
  groups : m.groups = n.groups
  gres : m.gres = n.gres

/-- A message says something under a key. -/
def Mentions (items : List String) (key : String) : Prop :=
  ∃ item ∈ items, (Text.cut '=' item).map (·.1) = some key

instance (items : List String) (key : String) : Decidable (Mentions items key) :=
  inferInstanceAs (Decidable (∃ item ∈ items, _))

theorem kept_foldl (n : Node) (items : List String) : n.Kept (items.foldl applyStatusItem n) := by
  refine List.foldlRecOn (motive := n.Kept) items _ ⟨rfl, rfl, rfl, rfl, rfl, rfl⟩ fun m kept item _ => ?_
  have admin (k : Node) (s : String) : (k.applyStateString s).state.admin = k.state.admin := by
    unfold applyStateString
    split <;> rfl
  unfold applyStatusItem
  split
  · exact kept
  · split
    · exact { kept with admin := (admin _ _).trans kept.admin }
    all_goals exact { kept with }

theorem kept_updateFromStatus (n : Node) (now : Time) (items : List String) :
    n.Kept (n.updateFromStatus now items) := { n.kept_foldl items with }

/-- No report makes a node without jobs exclusive, and none without a state any node. -/
theorem job_foldl (clear : n.state.job = false) (quiet : n.assignedJobs = [] ∨ ¬ Mentions items "state") :
    (items.foldl applyStatusItem n).state.job = false := by
  refine (List.foldlRecOn (motive := fun m : Node => m.state.job = false ∧ m.assignedJobs = n.assignedJobs)
    items _ ⟨clear, rfl⟩ fun m ⟨clear, jobs⟩ item member => ?_).1
  unfold applyStatusItem
  split
  · exact ⟨clear, jobs⟩
  case h_2 found =>
    split
    · have idle : m.assignedJobs = [] :=
        jobs.trans (quiet.resolve_right fun silent => silent ⟨item, member, by rw [found]; rfl⟩)
      refine ⟨?_, jobs⟩
      simp only [applyStateString, idle]
      split <;> simp [NodeFlags.admin, clear]
    all_goals exact ⟨clear, jobs⟩

theorem slotsTotal_foldl (cpus : ¬ Mentions items "ncpus") (np : ¬ Mentions items "np") :
    (items.foldl applyStatusItem n).slotsTotal = n.slotsTotal := by
  refine List.foldlRecOn (motive := fun m : Node => m.slotsTotal = n.slotsTotal) items _ rfl
    fun m same item member => ?_
  unfold applyStatusItem
  split
  · exact same
  case h_2 found =>
    split
    · exact same
    · exact absurd ⟨item, member, by rw [found]; rfl⟩ cpus
    · exact absurd ⟨item, member, by rw [found]; rfl⟩ np
    · exact same

/-- None of the flags that `IsFree` should go by is set, and there are slots left. -/
def Offers (n : Node) : Prop := { n.state with job := false } = {} ∧ n.slotsUsed < n.slotsTotal

/-- A node is exclusive only if it is full or not to be used. -/
def Honest (n : Node) : Prop :=
  n.state.job = true → n.state.admin ≠ {} ∨ n.slotsTotal ≤ n.slotsUsed

instance (n : Node) : Decidable n.Offers := inferInstanceAs (Decidable (_ ∧ _))

instance (n : Node) : Decidable n.Honest := inferInstanceAs (Decidable (_ → _))

theorem Honest.isFree (honest : n.Honest) (offers : n.Offers) : n.isFree = true := by
  obtain ⟨flags, left⟩ := offers
  have admin : n.state.admin = {} := congrArg NodeFlags.admin flags
  have job : n.state.job = false := by
    rw [Bool.eq_false_iff]
    intro job
    exact (honest job).elim (fun set => set admin) (not_le.mpr left)
  have same : n.state = { n.state with job := false } := by rw [← job]
  simp [Node.isFree, same.trans flags, left]

end Node

/-- One call on a node. -/
inductive NodeCall where
  | assignJob (id : String) (slots : Int)
  | releaseJob (id : String) (slots : Int)
  | updateFromStatus (now : Time) (items : List String)

namespace NodeCall
open Node

def apply (n : Node) : NodeCall → Node
  | assignJob id slots => n.assignJob id slots
  | releaseJob id slots => n.releaseJob id slots
  | updateFromStatus now items => n.updateFromStatus now items

/-- The call leaves no slots behind the flag: it fills the node or takes its last job, or
it reports no state of a node with jobs and no size of a full one. -/
def Plain (n : Node) : NodeCall → Prop
  | assignJob _ slots => n.state.job = true → n.slotsTotal ≤ wrap64 (n.slotsUsed + slots)
  | releaseJob id slots => n.state.job = true → n.assignedJobs.erase id = [] ∨
      n.slotsTotal ≤ max (wrap64 (n.slotsUsed - slots)) 0
  | updateFromStatus _ items =>
      n.state.job = false ∧ (n.assignedJobs = [] ∨ ¬ Mentions items "state") ∨
        n.slotsTotal ≤ n.slotsUsed ∧ ¬ Mentions items "ncpus" ∧ ¬ Mentions items "np"

instance (n : Node) : (call : NodeCall) → Decidable (call.Plain n)
  | assignJob .. | releaseJob .. => inferInstanceAs (Decidable (_ → _))
  | updateFromStatus .. => inferInstanceAs (Decidable (_ ∨ _))

theorem honest_apply (n : Node) (call : NodeCall) (plain : n.state.admin ≠ {} ∨ call.Plain n) :
    (call.apply n).Honest := by
  intro job
  cases call with
  | assignJob id slots =>
    rcases plain with used | plain
    · exact .inl used
    · rcases Bool.or_eq_true_iff.mp job with before | full
      · exact .inr (plain before)
      · exact .inr (of_decide_eq_true full)
  | releaseJob id slots =>
    rcases plain with used | plain
    · exact .inl used
    · obtain ⟨before, others⟩ := (Bool.and_eq_true ..).mp job
      exact .inr ((plain before).resolve_left (of_decide_eq_true others))
  | updateFromStatus now items =>
    have kept := n.kept_foldl items
    rcases plain with used | ⟨clear, quiet⟩ | ⟨full, cpus, np⟩
    · exact .inl (kept.admin ▸ used)
    · exact absurd job (Bool.eq_false_iff.mp (job_foldl clear quiet))
    · refine .inr (show (items.foldl applyStatusItem n).slotsTotal ≤
        (items.foldl applyStatusItem n).slotsUsed from ?_)
      rwa [slotsTotal_foldl cpus np, kept.slotsUsed]

end NodeCall

/-- A status message keeps what it should; free slots are seen as long as the flag is not
set on a node that has some. -/
theorem free_slots_seen (n : Node) (now : Time) (items : List String) (calls : List NodeCall)
    (honest : n.Honest)
    (plain : Along NodeCall.apply (fun n call => n.state.admin ≠ {} ∨ call.Plain n) n calls) :
    n.Kept (n.updateFromStatus now items) ∧
      ((calls.foldl NodeCall.apply n).Offers → (calls.foldl NodeCall.apply n).isFree = true) :=
  ⟨n.kept_updateFromStatus now items,
    (plain.invariant (fun n call _ => call.honest_apply n) honest).isFree⟩

theorem free_slots_seen_run :
    let calls : List NodeCall := [.updateFromStatus 1 ["state=free", "np=2"], .assignJob "0.server" 2,
      .updateFromStatus 2 ["state=free"], .releaseJob "0.server" 2]
    (calls.foldl NodeCall.apply (.newNode 1)).isFree = true :=
  (free_slots_seen (.newNode 1) 1 [] _ (by decide +kernel) (by decide +kernel)).2 (by decide +kernel)

/-- A node with one slot taken of two is not free once its MOM has reported. -/
theorem free_slots_hidden :
    let n := ([.assignJob "0.server" 1, .updateFromStatus 1 ["state=free"]] : List NodeCall).foldl
      NodeCall.apply (.newNode 2)
    n.Offers ∧ n.isFree = false := by decide +kernel

end OpenTorque.Pbs
