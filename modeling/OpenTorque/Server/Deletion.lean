import OpenTorque.Server.Release

/-! The deletion of a job. The id of the request is resolved to a job once; the removal from
the manager, the store and the nodes goes by the text of the request, and the MOM is told at
an address built from the job. -/
namespace OpenTorque.Pbs
open Transition

/-- The address `dispatchJobToMOM` calls to start a job on a node. -/
def Node.dispatchAddr (n : Node) (name : String) : String × Int := (n.momHost name, n.momPort)

namespace Server
variable {s t : Server} {env : Env} {given key name x : String} {j : Job}

/-- Nothing is left of a job, and the other jobs are as they were. -/
structure Deleted (s t : Server) (key : String) : Prop where
  job : t.job key = none
  doc : t.doc key = none
  script : t.script key = none
  nodes : ∀ name n, t.nodeMgr.lookup name = some n → key ∉ n.assignedJobs
  others : ∀ x, x ≠ key → t.job x = s.job x ∧ t.doc x = s.doc x ∧ t.script x = s.script x

/-- How often the deletion of a job releases it on a node. -/
def releasesOn (j : Job) (name : String) : Nat :=
  if j.state = .running then (Job.hostNames j.execHost).count name else 0

theorem lookup_delete (s : Server) (env : Env) (given : String) (j : Job) :
    ∃ slots, IsCount slots ∧ ∀ name, (s.delete env given j).nodeMgr.lookup name =
      (s.nodeMgr.lookup name).map (·.releases given slots (releasesOn j name)) := by
  rw [delete]
  simp only [releasesOn]
  by_cases running : j.state = .running
  · obtain ⟨slots, count, released⟩ := releaseNodeResources_eq s env j.execHost given
    refine ⟨slots, count, fun name => ?_⟩
    simp only [running, if_true, released]
    exact lookup_releaseOn name
  · refine ⟨1, by decide, fun name => ?_⟩
    simp only [running, if_false]
    exact (Option.map_id' ..).symm

theorem store_delete (s : Server) (env : Env) (given : String) (j : Job) :
    (s.delete env given j).store = s.store.deleteJob given := by
  have released : ∀ names id slots, (s.releaseOn names id slots).store = s.store :=
    fun names _ _ => view_foldl names fun _ _ => rfl
  simp only [delete, onJobs_store, onStore_store, onQueues_store]
  split
  · rw [releaseNodeResources, released]
  · rfl

theorem doc_delete (s : Server) (env : Env) (given : String) (j : Job) :
    (s.delete env given j).doc = Function.update s.doc given none :=
  (funext fun x => congrArg (fun st : Store => st.jobs.lookup x) (store_delete s env given j)).trans
    (lookup_erase s.store.jobs given)

theorem script_delete (s : Server) (env : Env) (given : String) (j : Job) :
    (s.delete env given j).script = Function.update s.script given none :=
  (funext fun x => congrArg (fun st : Store => st.scripts.lookup x) (store_delete s env given j)).trans
    (lookup_erase s.store.scripts given)

/-- The nodes list a job no more often than its deletion releases it there. -/
def ListsWithin (s : Server) (key : String) (j : Job) : Prop :=
  ∀ name n, s.nodeMgr.lookup name = some n → n.assignedJobs.count key ≤ releasesOn j name

theorem deleted_of_delete (s : Server) (env : Env) (key : String) (j : Job)
    (lists : s.ListsWithin key j) : s.Deleted (s.delete env key j) key := by
  obtain ⟨slots, -, nodes⟩ := lookup_delete s env key j
  refine ⟨?_, ?_, ?_, fun name n after => ?_, fun x other => ?_⟩
  · rw [job_delete, Function.update_self]
  · rw [doc_delete, Function.update_self]
  · rw [script_delete, Function.update_self]
  · rw [nodes] at after
    obtain ⟨before, found, rfl⟩ := Option.map_eq_some_iff.mp after
    exact Node.not_mem_releases.mpr (lists name before found)
  · simp [job_delete, doc_delete, script_delete, other]

/-- A deletion leaves nothing of a job, and nothing else changed, exactly when the request
gives the id in full and no node lists the job beyond its hosts. -/
theorem deleted_iff (s : Server) (env : Env) (given key : String) (j : Job)
    (found : s.getJob env given = some (key, j)) :
    ((s.handleDeleteJob env given).reply = .ok ∧
        s.Deleted (s.handleDeleteJob env given).server key) ↔
      given = key ∧ s.ListsWithin key j := by
  have reply : (s.handleDeleteJob env given).reply = .ok := by rw [handleDeleteJob, found]
  have after : (s.handleDeleteJob env given).server = s.delete env given j := by
    rw [handleDeleteJob, found]
  rw [reply, after]
  constructor
  · rintro ⟨-, deleted⟩
    have spelled : given = key := by
      by_contra other
      have gone := deleted.job
      rw [job_delete, Function.update_of_ne (Ne.symm other), job_of_getJob found] at gone
      cases gone
    subst spelled
    refine ⟨rfl, fun name n present => ?_⟩
    obtain ⟨slots, -, nodes⟩ := lookup_delete s env given j
    have unlisted := deleted.nodes name (n.releases given slots (releasesOn j name))
      (by rw [nodes, present, Option.map_some])
    exact Node.not_mem_releases.mp unlisted
  · rintro ⟨rfl, lists⟩
    exact ⟨rfl, deleted_of_delete s env given j lists⟩

/-- A job that is gone from its only node. -/
theorem deleted_of_single_host :
    let s := fromEmpty (atOnce sharedRun)
    (s.job "1.server").any (·.state = .running) = true ∧
      (s.handleDeleteJob { now := 2 } "1.server").reply = .ok ∧
      s.Deleted (s.handleDeleteJob { now := 2 } "1.server").server "1.server" := by
  intro s
  have facts : (s.getJob { now := 2 } "1.server").any (fun found => found.1 = "1.server" ∧
      ∀ name n, s.nodeMgr.lookup name = some n →
        n.assignedJobs.count "1.server" ≤ releasesOn found.2 name) = true := by decide +kernel
  obtain ⟨⟨_, j⟩, found, holds⟩ := (Option.any_eq_true _ _).mp facts
  obtain ⟨rfl, lists⟩ := of_decide_eq_true holds
  exact ⟨by decide +kernel, (deleted_iff s { now := 2 } "1.server" "1.server" j found).mpr ⟨rfl, lists⟩⟩

/-- With the short id the client hears that the job is deleted, and all of it stays. -/
theorem deletion_by_short_id :
    let s := fromEmpty (atOnce sharedRun)
    let t := (s.handleDeleteJob { now := 2 } "1").server
    (s.getJob { now := 2 } "1").map (·.1) = some "1.server" ∧
      (s.handleDeleteJob { now := 2 } "1").reply = .ok ∧
      (t.job "1.server").any (·.state = .running) = true ∧ (t.doc "1.server").isSome = true ∧
      t.assigned "n1" = ["1.server"] ∧ ¬ s.Deleted t "1.server" := by
  intro s t
  have facts : (s.getJob { now := 2 } "1").map (·.1) = some "1.server" ∧
      (s.handleDeleteJob { now := 2 } "1").reply = .ok ∧
      (t.job "1.server").any (·.state = .running) = true ∧ (t.doc "1.server").isSome = true ∧
      t.assigned "n1" = ["1.server"] := by decide +kernel
  obtain ⟨resolved, reply, running, written, listed⟩ := facts
  refine ⟨resolved, reply, running, written, listed, fun deleted => ?_⟩
  simp [deleted.job] at running

/-- Every node of the job that the server knows is told to delete it, at the address at which
it was told to start it. -/
def KillsEverywhere (s : Server) (key : String) (j : Job) (sent : List DeleteMessage) : Prop :=
  ∀ name ∈ Job.hostNames j.execHost, ∀ n, s.nodeMgr.lookup name = some n →
    ⟨(n.dispatchAddr name).1, (n.dispatchAddr name).2, key⟩ ∈ sent

/-- The nodes of the job that the server knows have one address, and it is made of the first
host and the port that the job carries. -/
def CalledAtFirstHost (s : Server) (j : Job) : Prop :=
  ∀ name ∈ Job.hostNames j.execHost, ∀ n, s.nodeMgr.lookup name = some n →
    j.execHost ≠ "" ∧ n.momHost name = Text.before '/' j.execHost ∧
      n.momPort = if j.execPort = 0 then 15002 else j.execPort

theorem kills_everywhere_iff (s : Server) (env : Env) (given key : String) (j : Job)
    (found : s.getJob env given = some (key, j)) (running : j.state = .running) :
    s.KillsEverywhere key j (s.handleDeleteJob env given).sent ↔ s.CalledAtFirstHost j := by
  have sent : (s.handleDeleteJob env given).sent = deleteMessages key j := by
    rw [handleDeleteJob, found]
    exact if_pos running
  rw [sent, KillsEverywhere, CalledAtFirstHost, deleteMessages]
  by_cases empty : j.execHost = ""
  · simp [empty]
  · simp [empty, Node.dispatchAddr]

theorem kills_everywhere_of_single_host :
    let s := fromEmpty (atOnce sharedRun)
    ∃ j, s.getJob { now := 2 } "1.server" = some ("1.server", j) ∧ j.execHost = "n1/0" ∧
      s.KillsEverywhere "1.server" j (s.handleDeleteJob { now := 2 } "1.server").sent := by
  intro s
  have facts : (s.getJob { now := 2 } "1.server").any (fun found => found.1 = "1.server" ∧
      found.2.state = .running ∧ found.2.execHost = "n1/0" ∧
      ∀ name ∈ Job.hostNames found.2.execHost, ∀ n ∈ s.nodeMgr.lookup name, found.2.execHost ≠ "" ∧
        n.momHost name = Text.before '/' found.2.execHost ∧
        n.momPort = if found.2.execPort = 0 then 15002 else found.2.execPort) = true := by
    decide +kernel
  obtain ⟨⟨_, j⟩, found, holds⟩ := (Option.any_eq_true _ _).mp facts
  obtain ⟨rfl, running, host, called⟩ := of_decide_eq_true holds
  exact ⟨j, found, host,
    (kills_everywhere_iff s { now := 2 } "1.server" "1.server" j found running).mpr called⟩

/-- Of the two nodes of a job only the first is told. -/
theorem second_host_not_told :
    let s := fromEmpty pairRun
    ∃ j, s.getJob { now := 2 } "0.server" = some ("0.server", j) ∧ j.state = .running ∧
      j.execHost = "n1/0+n2/0" ∧
      (s.handleDeleteJob { now := 2 } "0.server").sent = [⟨"n1", 15002, "0.server"⟩] ∧
      ¬ s.KillsEverywhere "0.server" j (s.handleDeleteJob { now := 2 } "0.server").sent := by
  intro s
  have facts : (s.getJob { now := 2 } "0.server").any (fun found => found.1 = "0.server" ∧
      found.2.state = .running ∧ found.2.execHost = "n1/0+n2/0" ∧
      (s.handleDeleteJob { now := 2 } "0.server").sent = [⟨"n1", 15002, "0.server"⟩]) = true := by
    decide +kernel
  have node : (s.nodeMgr.lookup "n2").map (·.dispatchAddr "n2") = some ("n2", 15002) := by
    decide +kernel
  obtain ⟨⟨_, j⟩, found, holds⟩ := (Option.any_eq_true _ _).mp facts
  obtain ⟨rfl, running, hosts, sent⟩ := of_decide_eq_true holds
  obtain ⟨n, present, addr⟩ := Option.map_eq_some_iff.mp node
  refine ⟨j, found, running, hosts, sent, fun everywhere => ?_⟩
  have told := everywhere "n2" (by rw [hosts]; decide) n present
  rw [sent, addr] at told
  simp at told

end Server

end OpenTorque.Pbs
