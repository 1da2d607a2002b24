import OpenTorque.Sched.Demand
import OpenTorque.Sched.MultiNode

/-! The request of a job as the server reads it and as the scheduler puts it together from the
job's status, whose resources come in any order. -/
namespace OpenTorque

/-- The order that ends with one key. -/
def RangeOrder.last (k : String) : RangeOrder where
  visit keys := ((RangeOrder.first k).visit keys).reverse
  perm keys := (List.reverse_perm _).trans ((RangeOrder.first k).perm keys)

theorem lastOf_range_last {V W : Type} {m : Assoc V} {f : String → Option W} {k : String} {v : W}
    (known : k ∈ m) (given : f k = some v) : lastOf f (m.range (.last k)) = some v := by
  have ends : m.range (.last k) = (m.keys.erase k).reverse ++ [k] := by
    simp [Assoc.range, RangeOrder.last, RangeOrder.first, AList.mem_keys.mp known]
  rw [ends, lastOf_append, lastOf_cons, given]
  rfl

namespace Sched
open Pbs

/-- A positive number in a resource of the job. -/
def positive (job : Job) (resc : String) : Option Int := (parseInt (job.resource resc)).filter (0 < ·)

/-- A part of the node specification that the resource gives, or `other` if it is `ppn`. -/
def specTold (part : Int × Int → Int) (other : String → Option Int) (resc value : String) : Option Int :=
  if resc = "nodes" ∨ resc = "select" then some (part (Pbs.parseNodeSelectSpec value))
  else if resc = "ppn" then other value else none

/-- The same for a job, which shows no empty resources. -/
def specOf (part : Int × Int → Int) (other : String → Option Int) (job : Job) (resc : String) :
    Option Int :=
  if resc = "" ∨ job.resource resc = "" then none else specTold part other resc (job.resource resc)

namespace JobInfo
variable (job : Job) (id : String) (order : RangeOrder)

/-- What `resourceOf` says about the two keys of a specification and the third one. -/
theorem spec_keys (a : Attr) :
    (keyOf a = "Resource_List.nodes" ∨ keyOf a = "Resource_List.select" ↔
      resourceOf a = some "nodes" ∨ resourceOf a = some "select") ∧
    (keyOf a = "Resource_List.ppn" ↔ resourceOf a = some "ppn") := by
  simp only [resourceOf_eq_some]
  exact ⟨Iff.rfl, Iff.rfl⟩

theorem parseJobInfo_nodes : (parseJobInfo (job.status id order)).nodes =
    (lastOf (specOf Prod.fst (fun _ => none) job) (job.resourceReq.range order)).getD 0 := by
  refine parseJobInfo_field nodes (specTold Prod.fst fun _ => none) (fun j a => ?_) job id order
  simp only [(j.reads a).nodes, (spec_keys a).1]
  cases resourceOf a with
  | none => simp
  | some resc => by_cases spec : resc = "nodes" ∨ resc = "select" <;> simp [specTold, spec]; rfl

theorem parseJobInfo_ppn : (parseJobInfo (job.status id order)).ppn =
    (lastOf (specOf Prod.snd (fun v => (parseInt v).filter (0 < ·)) job)
      (job.resourceReq.range order)).getD 0 := by
  refine parseJobInfo_field ppn (specTold Prod.snd fun v => (parseInt v).filter (0 < ·))
    (fun j a => ?_) job id order
  simp only [(j.reads a).ppn, spec_keys a]
  cases resourceOf a with
  | none => simp
  | some resc =>
    by_cases spec : resc = "nodes" ∨ resc = "select"
    · simp [specTold, spec]
      rfl
    · by_cases extra : resc = "ppn" <;> simp [specTold, spec, extra]

/-- A job of no specification is one for one node. -/
def nodeCount (j : JobInfo) : Int := if j.nodes = 0 then 1 else j.nodes

end JobInfo

/-- The scheduler's record asks for what the server reads. -/
structure Agrees (job : Job) (j : JobInfo) : Prop where
  gres : ∀ name n, j.gres.lookup name = some n ↔ (name, n) ∈ job.genericReqs
  nodes : (j.nodeCount, j.perNode) = job.nodeRequest
  cpus : j.demand = job.requestedCPUs

/-- The resources of a job say the same in every order, and `ncpus` says as much as the
specification. -/
structure Aligned (job : Job) : Prop where
  select : job.resource "nodes" ≠ "" → job.resource "select" ≠ "" →
    Pbs.parseNodeSelectSpec (job.resource "select") = Pbs.parseNodeSelectSpec (job.resource "nodes")
  ppn : ∀ p, positive job "ppn" = some p →
    p = if job.resource "nodes" ≠ "" then (Pbs.parseNodeSelectSpec (job.resource "nodes")).2
      else if job.resource "select" ≠ "" then (Pbs.parseNodeSelectSpec (job.resource "select")).2
      else (positive job "ncpus").getD 1
  cpus : if job.resource "nodes" = "" then atoi (job.resource "ncpus") = 0 ∨ (positive job "ncpus").isSome
    else atoi (job.resource "ncpus") = (Pbs.parseNodeSelectSpec (job.resource "nodes")).2 ∨
      atoi (job.resource "ncpus") = 0 ∧ (Pbs.parseNodeSelectSpec (job.resource "nodes")).2 = 1
  unnamed : positive job "" = none

section Agreement
variable {job : Job}

theorem mem_genericReqs {name : String} {n : Int} :
    (name, n) ∈ job.genericReqs ↔ name ∉ Job.builtinResources ∧ positive job name = some n := by
  have given : positive job name = some n ↔
      ∃ v, job.resourceReq.lookup name = some v ∧ (parseInt v).filter (0 < ·) = some n := by
    rw [positive, Job.resource]
    cases job.resourceReq.lookup name with
    | none => simp [show parseInt "" = none by decide]
    | some v => simp
  rw [Job.genericReqs, List.mem_filterMap, given]
  constructor
  · rintro ⟨⟨resc, v⟩, listed, kept⟩
    simp only [Option.ite_none_left_eq_some, Option.map_eq_some_iff] at kept
    obtain ⟨other, m, read, same⟩ := kept
    cases same
    exact ⟨other, v, AList.mem_lookup_iff.mpr listed, read⟩
  · rintro ⟨other, v, found, read⟩
    exact ⟨⟨name, v⟩, AList.mem_lookup_iff.mp found, by simp [other, read]⟩

theorem gres_agree_iff (id : String) (order : RangeOrder) :
    (∀ name n, (parseJobInfo (job.status id order)).gres.lookup name = some n ↔
      (name, n) ∈ job.genericReqs) ↔ positive job "" = none := by
  simp only [JobInfo.parseJobInfo_gres, mem_genericReqs]
  constructor
  · intro same
    refine Option.eq_none_iff_forall_ne_some.mpr fun n read => ?_
    have listed := (same "" n).mpr ⟨by decide, read⟩
    simp [JobInfo.gresRead] at listed
  · intro unnamed name n
    rw [JobInfo.gresRead]
    by_cases empty : name = ""
    · simp [empty, unnamed]
    · by_cases built : name ∈ Job.builtinResources <;> simp [empty, built, positive]

theorem cpus_agree_iff : cpusDemanded job = job.requestedCPUs ↔
    if job.resource "nodes" = "" then atoi (job.resource "ncpus") = 0 ∨ (positive job "ncpus").isSome
    else atoi (job.resource "ncpus") = (Pbs.parseNodeSelectSpec (job.resource "nodes")).2 ∨
      atoi (job.resource "ncpus") = 0 ∧ (Pbs.parseNodeSelectSpec (job.resource "nodes")).2 = 1 := by
  have demanded : cpusDemanded job =
      if atoi (job.resource "ncpus") = 0 then 1 else atoi (job.resource "ncpus") := by
    rw [cpusDemanded, JobInfo.cpusRead]
    by_cases empty : job.resource "ncpus" = ""
    · simp [empty, show atoi "" = 0 by decide]
    · simp [empty]
  have counted := (parseNodeSelectSpec_isCount (job.resource "nodes")).1
  rw [demanded, Job.requestedCPUs]
  by_cases spec : job.resource "nodes" = ""
  · simp only [spec, ne_eq, not_true_eq_false, if_false, if_true]
    change _ = (positive job "ncpus").getD 1 ↔ _
    cases read : positive job "ncpus" with
    | none =>
      rcases parseIntOrZero_cases (job.resource "ncpus") with parsed | ⟨-, bound⟩
      · have low : ¬ 0 < atoi (job.resource "ncpus") := by
          simpa [positive, parsed] using read
        simp only [Option.getD_none, Option.isSome_none, Bool.false_eq_true, or_false]
        split <;> omega
      · rcases bound with value | value | value
        all_goals
          simp only [atoi, value, Option.getD_none, Option.isSome_none, Bool.false_eq_true, or_false]
          decide
    | some n =>
      obtain ⟨parsed, positive⟩ := Option.filter_eq_some_iff.mp read
      have nonzero : n ≠ 0 := by simpa using (show 0 < n by simpa using positive).ne'
      simp [atoi, parseIntOrZero_of_parseInt parsed, nonzero]
  · simp only [spec, ne_eq, not_false_eq_true, if_true, if_false]
    split <;> omega

section Layout
variable {part : Int × Int → Int} {other : String → Option Int} {resc : String} {v : Int}

theorem known_of_specOf (given : specOf part other job resc = some v) : resc ∈ job.resourceReq := by
  by_contra absent
  simp [specOf, JobInfo.resource_of_not_mem absent] at given

theorem specOf_named (set : job.resource resc ≠ "") (spec : resc = "nodes" ∨ resc = "select") :
    specOf part other job resc = some (part (Pbs.parseNodeSelectSpec (job.resource resc))) := by
  have named : resc ≠ "" := by rcases spec with rfl | rfl <;> decide
  simp [specOf, specTold, named, set, spec]

theorem specOf_ppn : specOf part other job "ppn" =
    if job.resource "ppn" = "" then none else other (job.resource "ppn") := by
  simp [specOf, specTold]

theorem nodeRequest_of_nodes (set : job.resource "nodes" ≠ "") :
    job.nodeRequest = Pbs.parseNodeSelectSpec (job.resource "nodes") := by
  simp [Job.nodeRequest, set]

theorem nodeRequest_of_select (unset : job.resource "nodes" = "") (set : job.resource "select" ≠ "") :
    job.nodeRequest = Pbs.parseNodeSelectSpec (job.resource "select") := by
  simp [Job.nodeRequest, unset, set]

theorem nodeRequest_snd (job : Job) : job.nodeRequest.2 =
    if job.resource "nodes" ≠ "" then (Pbs.parseNodeSelectSpec (job.resource "nodes")).2
    else if job.resource "select" ≠ "" then (Pbs.parseNodeSelectSpec (job.resource "select")).2
    else (positive job "ncpus").getD 1 := by
  rw [Job.nodeRequest, Job.requestedCPUs, positive]
  by_cases unset : job.resource "nodes" = ""
  · by_cases bare : job.resource "select" = "" <;> simp [unset, bare]
  · simp [unset]

/-- All that an aligned job says about its nodes is what the server reads. -/
theorem Aligned.specOf_eq (aligned : Aligned job)
    (extra : ∀ p, other (job.resource "ppn") = some p → p = part job.nodeRequest)
    (given : specOf part other job resc = some v) : v = part job.nodeRequest := by
  simp only [specOf, specTold, Option.ite_none_left_eq_some, not_or] at given
  obtain ⟨⟨-, set⟩, given⟩ := given
  split at given
  case isTrue spec =>
    obtain rfl := Option.some.inj given
    rcases spec with rfl | rfl
    · rw [nodeRequest_of_nodes set]
    · by_cases unset : job.resource "nodes" = ""
      · rw [nodeRequest_of_select unset set]
      · rw [aligned.select unset set, nodeRequest_of_nodes unset]
  case isFalse =>
    obtain ⟨rfl, given⟩ := Option.ite_none_right_eq_some.mp given
    exact extra v given

/-- What the loop over the resources of an aligned job leaves of its specification. -/
theorem Aligned.figure (aligned : Aligned job) (order : RangeOrder)
    (extra : ∀ p, other (job.resource "ppn") = some p → p = part job.nodeRequest) :
    (lastOf (specOf part other job) (job.resourceReq.range order)).getD 0 = part job.nodeRequest ∨
      (lastOf (specOf part other job) (job.resourceReq.range order)).getD 0 = 0 ∧
        job.resource "nodes" = "" ∧ job.resource "select" = "" := by
  cases last : lastOf (specOf part other job) (job.resourceReq.range order) with
  | some v =>
    obtain ⟨resc, -, given⟩ := exists_of_lastOf last
    exact .inl (aligned.specOf_eq extra given)
  | none =>
    have unset : ∀ resc, resc = "nodes" ∨ resc = "select" → job.resource resc = "" := by
      intro resc spec
      by_contra set
      have given := @specOf_named job part other resc set spec
      rw [lastOf_eq_none.mp last resc ((Assoc.mem_range order _).mpr (known_of_specOf given))] at given
      cases given
    exact .inr ⟨rfl, unset "nodes" (.inl rfl), unset "select" (.inr rfl)⟩

end Layout

theorem Aligned.nodes_eq (aligned : Aligned job) (id : String) (order : RangeOrder) :
    (parseJobInfo (job.status id order)).nodes = job.nodeRequest.1 ∨
      (parseJobInfo (job.status id order)).nodes = 0 ∧
        job.resource "nodes" = "" ∧ job.resource "select" = "" := by
  rw [JobInfo.parseJobInfo_nodes]
  exact aligned.figure order (by simp)

theorem Aligned.ppn_eq (aligned : Aligned job) (id : String) (order : RangeOrder) :
    (parseJobInfo (job.status id order)).ppn = job.nodeRequest.2 ∨
      (parseJobInfo (job.status id order)).ppn = 0 ∧
        job.resource "nodes" = "" ∧ job.resource "select" = "" := by
  rw [JobInfo.parseJobInfo_ppn]
  refine aligned.figure order fun p given => ?_
  rw [nodeRequest_snd]
  exact aligned.ppn p given

theorem Aligned.agrees (aligned : Aligned job) (id : String) (order : RangeOrder) :
    Agrees job (parseJobInfo (job.status id order)) := by
  have cpus : (parseJobInfo (job.status id order)).demand = job.requestedCPUs := by
    rw [demand_parseJobInfo, cpus_agree_iff]
    exact aligned.cpus
  refine ⟨(gres_agree_iff id order).mpr aligned.unnamed, Prod.ext ?_ ?_, cpus⟩
  · rw [JobInfo.nodeCount]
    rcases aligned.nodes_eq id order with same | ⟨zero, unset, bare⟩
    · simp [same, (nodeRequest_pos job).ne']
    · simp [zero, Job.nodeRequest, unset, bare]
  · rw [JobInfo.perNode, cpus]
    rcases aligned.ppn_eq id order with same | ⟨zero, unset, bare⟩
    · simp [same, job.nodeRequest_isCount.1.ne']
    · simp [zero, Job.nodeRequest, unset, bare]

/-- What the record says of the resource that comes last. -/
theorem Agrees.spec_last {resc : String} {v : Int}
    (agrees : Agrees job (parseJobInfo (job.status "" (.last resc)))) (positive : 0 < v) :
    (specOf Prod.fst (fun _ => none) job resc = some v → v = job.nodeRequest.1) ∧
    (specOf Prod.snd (fun value => (parseInt value).filter (0 < ·)) job resc = some v →
      v = job.nodeRequest.2) := by
  rw [← agrees.nodes, JobInfo.nodeCount, JobInfo.perNode, JobInfo.parseJobInfo_nodes,
    JobInfo.parseJobInfo_ppn]
  constructor
  · intro given
    simp [lastOf_range_last (known_of_specOf given) given, positive.ne']
  · intro given
    simp [lastOf_range_last (known_of_specOf given) given, positive.ne']

theorem aligned_of_agrees (agrees : ∀ id order, Agrees job (parseJobInfo (job.status id order))) :
    Aligned job := by
  refine ⟨fun set chosen => ?_, fun p given => ?_, ?_, ?_⟩
  · rw [← nodeRequest_of_nodes set]
    exact Prod.ext
      (((agrees _ _).spec_last (parseNodeSelectSpec_pos _)).1 (specOf_named chosen (.inr rfl)))
      (((agrees _ _).spec_last (parseNodeSelectSpec_isCount _).1).2 (specOf_named chosen (.inr rfl)))
  · rw [← nodeRequest_snd]
    refine ((agrees _ _).spec_last (isCount_parseInt given).1).2 (specOf_ppn.trans ((if_neg ?_).trans given))
    intro empty
    simp [positive, empty, show parseInt "" = none by decide] at given
  · rw [← cpus_agree_iff, ← demand_parseJobInfo job "" .listed]
    exact (agrees "" .listed).cpus
  · exact (gres_agree_iff "" .listed).mp (agrees "" .listed).gres

/-- The scheduler's record of a job asks for what the server reads, in whatever order its
resources are shown, exactly if the resources agree with each other. The figures are the same
as they stand if the job has a node specification. -/
theorem requests_agree_iff (job : Job) :
    ((∀ id order, Agrees job (parseJobInfo (job.status id order))) ↔ Aligned job) ∧
    ((∀ id order, Agrees job (parseJobInfo (job.status id order)) ∧
        ((parseJobInfo (job.status id order)).nodes, (parseJobInfo (job.status id order)).ppn) =
          job.nodeRequest) ↔
      Aligned job ∧ (job.resource "nodes" ≠ "" ∨ job.resource "select" ≠ "")) := by
  refine ⟨⟨aligned_of_agrees, fun aligned => aligned.agrees⟩, fun same => ?_,
    fun ⟨aligned, set⟩ id order => ?_⟩
  · refine ⟨aligned_of_agrees fun id order => (same id order).1, ?_⟩
    by_contra unset
    obtain ⟨nodes, select⟩ := not_or.mp unset
    rw [not_ne_iff] at nodes select
    have silent : lastOf (specOf Prod.fst (fun _ => none) job) (job.resourceReq.range .listed) = none := by
      refine lastOf_eq_none.mpr fun resc _ => ?_
      by_cases spec : resc = "nodes" ∨ resc = "select"
      · rcases spec with rfl | rfl <;> simp [specOf, nodes, select]
      · simp [specOf, specTold, spec]
    have shown := (same "" .listed).2
    rw [JobInfo.parseJobInfo_nodes, silent, Prod.ext_iff] at shown
    exact (nodeRequest_pos job).ne shown.1
  · have stands : ∀ {x y : Int}, x = y ∨ x = 0 ∧ job.resource "nodes" = "" ∧ job.resource "select" = "" →
        x = y := fun either =>
      either.resolve_right fun ⟨_, nodes, select⟩ => set.elim (absurd nodes) (absurd select)
    refine ⟨aligned.agrees id order, ?_⟩
    rw [stands (aligned.nodes_eq id order), stands (aligned.ppn_eq id order)]

/-- The processors of a node specification are not read as those of a job. -/
theorem request_misread : ∃ job : Job, job.nodeRequest = (2, 2) ∧ job.requestedCPUs = 2 ∧
    ∀ order, (parseJobInfo (job.status "1.server" order)).demand = 1 :=
  ⟨{ resourceReq := AList.insert "nodes" "2:ppn=2" ∅ }, by decide, by decide, fun order => by
    rw [demand_parseJobInfo]
    decide⟩

end Agreement
end Sched
end OpenTorque
