import OpenTorque.HA.Lease
import OpenTorque.Server.Recovery

/-! Several servers over one PostgreSQL store. Each server reads the store when it is
started and never again; it becomes active through the lease and goes on with the jobs,
queues and nodes it has in memory. -/
namespace OpenTorque.Pbs

/-- The documents that jobs, queues and nodes are decoded from. -/
def Store.documents (st : Store) :
    Option String × Assoc String × Assoc String × Assoc String :=
  (st.nodes, st.queues, st.jobs, st.scripts)

namespace Server
variable {s t : Server} {env : Env}

def managers (s : Server) : Assoc Job × QueueManager × NodeManager :=
  (s.jobMgr.jobs, s.queueMgr, s.nodeMgr)

/-- Two servers that decode the same documents have come equally far. -/
structure Alike (s t : Server) : Prop where
  managers : s.managers = t.managers
  documents : s.store.documents = t.store.documents
  serverName : s.cfg.serverName = t.cfg.serverName

namespace Alike

theorem recoverQueue (alike : Alike s t) (name : String) :
    Alike (s.recoverQueue name) (t.recoverQueue name) := by
  obtain ⟨managers, documents, same⟩ := alike
  simp only [Server.managers, Store.documents, Prod.mk.injEq] at managers documents
  unfold Server.recoverQueue
  rw [documents.2.1]
  split <;> constructor <;> simp [Server.managers, Store.documents, managers, documents, same]

theorem recoverJob (alike : Alike s t) (id : String) :
    Alike (Server.recoverJob env s id) (Server.recoverJob env t id) := by
  obtain ⟨managers, documents, same⟩ := alike
  simp only [Server.managers, Store.documents, Prod.mk.injEq] at managers documents
  unfold Server.recoverJob
  rw [documents.2.2.1]
  split <;> constructor <;> simp [Server.managers, Store.documents, managers, documents, same]

theorem recoverNodes (alike : Alike s t) : Alike s.recoverNodes t.recoverNodes := by
  obtain ⟨managers, documents, same⟩ := alike
  simp only [Server.managers, Store.documents, Prod.mk.injEq] at managers documents
  unfold Server.recoverNodes
  rw [documents.1]
  cases t.store.nodes <;> constructor <;>
    simp [Server.managers, Store.documents, managers, documents, same]

theorem recoverJobs (alike : Alike s t) (env : Env) :
    Alike (s.recoverJobs env) (t.recoverJobs env) := by
  have jobs : s.store.jobs = t.store.jobs := congrArg (·.2.2.1) alike.documents
  unfold Server.recoverJobs
  rw [jobs]
  exact List.foldl_rel alike fun id _ _ _ alike => alike.recoverJob id

theorem restoreJob (alike : Alike s t) (id : String) :
    Alike (s.restoreJob id) (t.restoreJob id) := by
  have jobs : s.jobMgr.jobs = t.jobMgr.jobs := congrArg Prod.fst alike.managers
  unfold Server.restoreJob
  rw [jobs]
  split
  · exact alike
  · split
    · exact alike
    · refine List.foldl_rel alike fun name _ s t alike => ?_
      obtain ⟨managers, documents, same⟩ := alike
      simp only [Server.managers, Prod.mk.injEq] at managers
      exact ⟨by simp [restoreOn, Server.managers, managers], documents, same⟩

end Alike

theorem recoverServerDB_serverName (name : String) (st : Store) :
    (Server.new name st).recoverServerDB.cfg.serverName = name := by
  unfold recoverServerDB
  split
  · rfl
  · exact Config.recoverServerDB_serverName _ _

theorem recoverServerDB_managers (name : String) (st : Store) :
    (Server.new name st).recoverServerDB.managers = (∅, ∅, ∅) ∧
      (Server.new name st).recoverServerDB.store = st := by
  unfold recoverServerDB
  split
  · exact ⟨rfl, rfl⟩
  case h_2 doc _ => cases counter : Config.recoverNextJobID doc <;> exact ⟨rfl, rfl⟩

theorem boot_managers (same : st.documents = st'.documents) (name : String) (env : Env) :
    (boot name st env).managers = (boot name st' env).managers := by
  obtain ⟨empty, store⟩ := recoverServerDB_managers name st
  obtain ⟨empty', store'⟩ := recoverServerDB_managers name st'
  have configured : Alike (Server.new name st).recoverServerDB (Server.new name st').recoverServerDB :=
    ⟨empty.trans empty'.symm, by rw [store, store', same],
      by rw [recoverServerDB_serverName, recoverServerDB_serverName]⟩
  have queued : Alike ((Server.new name st).recoverServerDB.recoverQueues env)
      ((Server.new name st').recoverServerDB.recoverQueues env) := by
    have queues : st.queues = st'.queues := congrArg (·.2.1) same
    unfold recoverQueues
    rw [store, store', queues]
    exact List.foldl_rel configured fun name _ _ _ alike => alike.recoverQueue name
  have noded := queued.recoverNodes
  have loaded := noded.recoverJobs env
  have jobs := congrArg Prod.fst loaded.managers
  unfold boot recoverState allJobs
  simp only [Server.managers] at jobs
  simp only [jobs]
  exact (List.foldl_rel loaded fun id _ _ _ alike => alike.restoreJob id).managers

end Server

/-- The requests that write no document of a job, a queue or a node and change none in
memory. -/
def Request.Reads : Request → Prop
  | .rdytoCommit _ | .lookupJob _ | .locateJob _ | .selectJobs | .checkpointJob _ | .statusJob _
  | .statusNode _ | .manager (.setServer _) | .manager (.unsetServer _)
  | .manager .unsupported => True
  | _ => False

/-- The requests that write no document. -/
def Request.Unsaved : Request → Prop
  | .queueJob .. | .holdJob _ | .releaseJob _ | .statusQueue _ => True
  | r => r.Reads

namespace Server
variable {s : Server} {env : Env} {answer : String → Option (List String)}

/-- A background task finds nothing to do, and a request only reads. -/
def Idle (s : Server) (env : Env) : Step → Prop
  | .request r => r.Reads
  | .authenticate _ _ => True
  | .checkNodes => ∀ name ∈ s.nodeMgr.keys, ¬ s.stale env name
  | .promoteWaitingJobs => ∀ id ∈ s.jobMgr.jobs.keys, ∀ j ∈ s.job id,
      j.state = .waiting → ¬ Time.isZero j.executionTime → env.now ≤ j.executionTime
  | .completedJobCleanup => ∀ id ∈ s.jobMgr.jobs.keys, ∀ j ∈ s.job id,
      j.state = .complete → ¬ Time.isZero j.compTime →
        env.now - j.compTime ≤ wrap64 (s.cfg.number "keep_completed" * Time.second)
  | .reconcile answer => ∀ id ∈ s.jobMgr.jobs.keys, ∀ j ∈ s.job id,
      j.state = .running → ∀ running ∈ answer (Text.before '/' (Text.before '+' j.execHost)),
        id ∈ running
  | _ => False

/-- A step that writes no document of a job, a queue or a node. -/
def Unsaved (s : Server) (env : Env) : Step → Prop
  | .request r => r.Unsaved
  | .dispatchDone _ _ | .dispatchFailed _ | .promoteWaitingJobs => True
  | .statusMessage msg =>
    msg.hostname ∈ s.nodeMgr.keys ∨ s.cfg.flag "allow_dynamic_nodes" = false
  | step => s.Idle env step

theorem checkNodes_idle (idle : s.Idle env .checkNodes) : s.checkNodes env = s := by
  refine List.foldlRecOn (motive := (· = s)) _ _ rfl fun t same name member => ?_
  rw [same]
  have known : name ∈ s.nodeMgr := by simpa [allNodes] using member
  have fresh := idle name (AList.mem_keys.mp known)
  unfold checkNode
  split
  · rfl
  case h_2 n found =>
    rw [if_neg]
    simpa [stale, found] using fresh

theorem foldl_idle {visit : Server → String → Server}
    (idle : ∀ id ∈ s.jobMgr.jobs.keys, visit s id = s) : (s.allJobs env).foldl visit s = s := by
  refine List.foldlRecOn (motive := (· = s)) _ _ rfl fun t same id member => ?_
  rw [same]
  have known : id ∈ s.jobMgr.jobs := by simpa [allJobs] using member
  exact idle id (AList.mem_keys.mp known)

theorem promoteWaitingJobs_idle (idle : s.Idle env .promoteWaitingJobs) :
    s.promoteWaitingJobs env = s := by
  refine foldl_idle fun id member => ?_
  unfold promote
  split
  · rfl
  case h_2 j found =>
    rw [if_neg]
    rintro ⟨waiting, dated, past⟩
    exact absurd past (not_lt.mpr (idle id member j found waiting (by simpa using dated)))

theorem completedJobCleanup_idle (idle : s.Idle env .completedJobCleanup) :
    s.completedJobCleanup env = s := by
  refine foldl_idle fun id member => ?_
  unfold purge
  split
  · rfl
  case h_2 j found =>
    rw [if_neg]
    rintro ⟨complete, dated, past⟩
    exact absurd past (not_lt.mpr (idle id member j found complete (by simpa using dated)))

theorem reconcile_idle (idle : s.Idle env (.reconcile answer)) :
    s.reconcileRunningJobsWithMOMs env answer = s := by
  refine foldl_idle fun id member => ?_
  unfold reconcile
  split
  · rfl
  case h_2 j found =>
    simp only
    split
    · rfl
    case isFalse placed =>
      split
      · rfl
      case h_2 running answered =>
        have state : j.state = .running := by
          by_contra other
          exact placed (.inl other)
        rw [if_pos (idle id member j found state running answered)]

end Server

section Kept
variable {s s' : Server} {env : Env} {step : Step}

/-- An idle step leaves jobs, queues and nodes as they are, in memory and in the store. -/
theorem Effect.idle_kept (effect : Effect s env step s') (idle : s.Idle env step) :
    s'.managers = s.managers ∧ s'.store.documents = s.store.documents := by
  cases effect with
  | unchanged | authenticated => exact ⟨rfl, rfl⟩
  | @managed command _ done =>
    cases command with
    | setServer | unsetServer =>
      cases done
      exact ⟨rfl, rfl⟩
    | unsupported => cases done
    | _ => exact idle.elim
  | nodesChecked => rw [Server.checkNodes_idle idle]; exact ⟨rfl, rfl⟩
  | promoted => rw [Server.promoteWaitingJobs_idle idle]; exact ⟨rfl, rfl⟩
  | cleaned => rw [Server.completedJobCleanup_idle idle]; exact ⟨rfl, rfl⟩
  | reconciled => rw [Server.reconcile_idle idle]; exact ⟨rfl, rfl⟩
  | _ => exact idle.elim

theorem Effect.unsaved_documents (effect : Effect s env step s') (unsaved : s.Unsaved env step) :
    s'.store.documents = s.store.documents := by
  cases effect with
  | unchanged | recounted | numbered | submitted | held | released | cleared | authenticated => rfl
  | @managed command _ done =>
    cases command with
    | setServer | unsetServer =>
      cases done
      rfl
    | unsupported => cases done
    | _ => exact unsaved.elim
  | @heard msg =>
    have quiet : (if msg.hostname ∈ s.nodeMgr then s
        else s.tryAutoRegisterNode env msg.hostname msg) = s := by
      rcases unsaved with known | off
      · exact if_pos (AList.mem_keys.mpr known)
      · simp [Server.tryAutoRegisterNode, off]
    simp only [Server.handleISMessage, quiet]
    rfl
  | dispatched =>
    unfold Server.dispatchDone
    split <;> rfl
  | undone =>
    unfold Server.dispatchFailed Server.undoJobDispatch
    split
    · rfl
    · simp only
      split <;> rfl
  | promoted =>
    refine List.foldlRecOn (motive := fun t : Server => t.store.documents = s.store.documents)
      _ _ rfl fun t kept id _ => ?_
    unfold Server.promote
    split
    · exact kept
    · split <;> exact kept
  | nodesChecked => exact (Effect.nodesChecked.idle_kept unsaved).2
  | cleaned => exact (Effect.cleaned.idle_kept unsaved).2
  | reconciled => exact (Effect.reconciled.idle_kept unsaved).2
  | _ => exact unsaved.elim

end Kept

end OpenTorque.Pbs

namespace OpenTorque.HA
open Transition Pbs

/-- The lease, the store that the servers share and what each server has in memory. -/
structure Site where
  cluster : Cluster
  store : Store
  memory : String → Server

/-- A step of one server, or of the election; a server that starts or takes over does so
in the environment of the step. -/
inductive SiteEvent where
  | serve (h : String) (env : Env) (step : Step)
  | elect (e : Event) (env : Env) (answer : String → Option (List String))

namespace Site

/-- The server `h` over the shared store, with its own flag. -/
def server (c : Site) (h : String) : Server :=
  { c.memory h with
    store := c.store, haEnabled := true, haActive := (c.cluster.masters h).active }

def keep (c : Site) (h : String) (s : Server) : Site :=
  { c with store := s.store, memory := Function.update c.memory h s }

/-- The compare-and-swap of `haLeaderLoop` will move the flag of `h` from 0 to 1. -/
def takesOver (c : Site) (h : String) : Bool :=
  (c.cluster.masters h).phase = .answered true && !(c.cluster.masters h).active

def elected (c : Site) (e : Event) : Site := { c with cluster := c.cluster.next e }

/-- One step; the names are the servers' own, and only a start reads the store. -/
def next (names : String → String) (c : Site) : SiteEvent → Site
  | .serve h env step => c.keep h ((c.server h).step env step)
  | .elect (.restart h) env _ =>
    { c.elected (.restart h) with
      memory := Function.update c.memory h (Server.boot (names h) c.store env) }
  | .elect (.settle h) env answer =>
    let settled := c.elected (.settle h)
    if c.takesOver h then
      settled.keep h ((settled.server h).reconcileRunningJobsWithMOMs env answer)
    else settled
  | .elect e _ _ => c.elected e

def initial (names : String → String) (clock : Int) (row : Option Lease) (store : Store)
    (starts : String → Env) : Site where
  cluster := .initial clock row
  store := store
  memory h := Server.boot (names h) store (starts h)

/-- Jobs, queues and nodes of `h` are those that a start would decode from the store. -/
def Current (names : String → String) (c : Site) (h : String) : Prop :=
  ∃ env, let r := Server.boot (names h) c.store env
    (∀ id, (c.server h).job id = r.job id) ∧
      (∀ q, (c.server h).queueMgr.lookup q = r.queueMgr.lookup q) ∧
      ∀ n, (c.server h).nodeMgr.lookup n = r.nodeMgr.lookup n

/-- A step that leaves the documents as they are, and the memory of `h` too. -/
def Quiet (c : Site) (h : String) : SiteEvent → Prop
  | .serve k env step =>
    if k = h then (c.server h).Idle env step else (c.server k).Unsaved env step
  | .elect (.settle k) env answer => c.takesOver k → (c.server k).Idle env (.reconcile answer)
  | .elect _ _ _ => True

variable {names : String → String} {c d : Site} {s : Server} {h k : String} {e : SiteEvent}

/-- The memory of `h` is what a start over the store yields. -/
def Fresh (names : String → String) (c : Site) (h : String) : Prop :=
  ∃ env, (c.memory h).managers = (Server.boot (names h) c.store env).managers

theorem Fresh.current (fresh : c.Fresh names h) : c.Current names h := by
  obtain ⟨env, same⟩ := fresh
  simp only [Server.managers, Prod.mk.injEq] at same
  obtain ⟨jobs, queues, nodes⟩ := same
  exact ⟨env, fun id => congrArg (AList.lookup id) jobs, fun q => congrArg (AList.lookup q) queues,
    fun n => congrArg (AList.lookup n) nodes⟩

/-- The documents stay, and so does the memory of `h`. -/
theorem Fresh.same (fresh : c.Fresh names h) (store : d.store.documents = c.store.documents)
    (memory : (d.memory h).managers = (c.memory h).managers) : d.Fresh names h := by
  obtain ⟨env, same⟩ := fresh
  exact ⟨env, memory.trans (same.trans (Server.boot_managers store.symm (names h) env))⟩

theorem Fresh.keep (fresh : c.Fresh names h) (documents : s.store.documents = c.store.documents)
    (own : k = h → s.managers = (c.memory h).managers) : (c.keep k s).Fresh names h := by
  refine fresh.same documents ?_
  by_cases same : h = k
  · subst same
    simpa [Site.keep] using own rfl
  · simp [Site.keep, same]

theorem Fresh.step (fresh : c.Fresh names h) (quiet : c.Quiet h e) :
    (c.next names e).Fresh names h := by
  cases e with
  | serve k env step =>
    have effect := (c.server k).step_effect env step
    by_cases same : k = h
    · subst same
      have idle : (c.server k).Idle env step := by simpa [Quiet] using quiet
      obtain ⟨managers, documents⟩ := effect.idle_kept idle
      exact fresh.keep documents fun _ => managers
    · have unsaved : (c.server k).Unsaved env step := by simpa [Quiet, same] using quiet
      exact fresh.keep (effect.unsaved_documents unsaved) fun other => absurd other same
  | elect e env answer =>
    cases e with
    | restart k =>
      by_cases same : h = k
      · subst same
        exact ⟨env, by simp [Site.next, Site.elected]⟩
      · refine fresh.same rfl ?_
        simp [Site.next, Site.elected, same]
    | settle k =>
      unfold Site.next
      simp only
      split
      case isTrue taken =>
        have idle : ((c.elected (.settle k)).server k).Idle env (.reconcile answer) := quiet taken
        rw [Server.reconcile_idle idle]
        refine Fresh.keep (c := c.elected (.settle k)) fresh rfl ?_
        rintro rfl
        rfl
      case isFalse => exact fresh
    | _ => exact fresh

theorem Fresh.started (c : Site) (env : Env) (answer : String → Option (List String)) :
    (c.next names (.elect (.restart h) env answer)).Fresh names h :=
  ⟨env, by simp [Site.next, Site.elected]⟩

end Site

/-- In every run, a server holds what the store holds, in particular when it takes over, if
since its last start no server has written a document and its own memory was left alone. -/
theorem takeover_current_of_quiet (names : String → String) (clock : Int) (row : Option Lease)
    (store : Store) (starts : String → Env) (before after : List SiteEvent) (h : String)
    (started : before = [] ∨ ∃ earlier env answer,
      before = earlier ++ [SiteEvent.elect (.restart h) env answer])
    (quiet : Along (Site.next names) (fun c e => c.Quiet h e)
      (before.foldl (Site.next names) (Site.initial names clock row store starts)) after) :
    ((before ++ after).foldl (Site.next names)
      (Site.initial names clock row store starts)).Current names h := by
  have first : (before.foldl (Site.next names)
      (Site.initial names clock row store starts)).Fresh names h := by
    rcases started with rfl | ⟨earlier, env, answer, rfl⟩
    · exact ⟨starts h, rfl⟩
    · rw [List.foldl_append]
      exact .started _ env answer
  rw [List.foldl_append]
  exact (quiet.invariant (fun _ _ => Site.Fresh.step) first).current

section Runs

instance : (r : Request) → Decidable r.Reads := fun r => by
  unfold Request.Reads
  split <;> infer_instance

instance : (r : Request) → Decidable r.Unsaved := fun r => by
  unfold Request.Unsaved
  split <;> infer_instance

instance (s : Server) (env : Env) (step : Step) : Decidable (s.Idle env step) := by
  induction step using Step.casesOn <;> unfold Server.Idle <;> infer_instance

instance (s : Server) (env : Env) (step : Step) : Decidable (s.Unsaved env step) := by
  induction step using Step.casesOn <;> unfold Server.Unsaved <;> infer_instance

instance (c : Site) (h : String) (e : SiteEvent) : Decidable (c.Quiet h e) := by
  unfold Site.Quiet
  split <;> infer_instance

/-- The events of a call of `TryAcquireLease` that gets through. -/
def callLease (h : String) : List SiteEvent :=
  [.tick h, .exec h, .select h].map fun e => .elect e { now := 1 } fun _ => none

def settle (h : String) : SiteEvent := .elect (.settle h) { now := 1 } fun _ => none

def serve (h : String) (requests : List Request) : List SiteEvent :=
  requests.map fun r => .serve h { now := 1 } (.request r)

/-- The server `a` leads and handles the requests; its lease ends and `b` has just
acquired the next one. -/
def failover (requests : List Request) : List SiteEvent :=
  callLease "a" ++ [settle "a"] ++ serve "a" requests ++
    [.elect (.advance 11) { now := 1 } fun _ => none] ++ callLease "b"

def siteOver (store : Store) : Site :=
  Site.initial (fun _ => "server") 0 none store fun _ => { now := 0 }

def runSite (store : Store) (events : List SiteEvent) : Site :=
  events.foldl (Site.next fun _ => "server") (siteOver store)

def oneJob : Store :=
  ((atOnce (submittedWith [])).foldl (fun s l => s.step l.1 l.2)
    (Server.new "server" { backend := .postgres })).store

/-- The job is held by the first server, which does not write its document. -/
theorem takeover_current_of_quiet_hold :
    (runSite oneJob (failover [.holdJob "0.server"])).takesOver "b" = true ∧
      (runSite oneJob (failover [.holdJob "0.server"])).Current (fun _ => "server") "b" := by
  have quiet : Along (Site.next fun _ => "server") (fun c e => c.Quiet "b" e) (siteOver oneJob)
      (failover [.holdJob "0.server"]) := by decide +kernel
  exact ⟨by decide +kernel, takeover_current_of_quiet _ 0 none oneJob _ [] _ "b" (.inl rfl) quiet⟩

/-- The job that the first server has acknowledged is in the database, but the second
server takes over without it. -/
theorem takeover_misses_acknowledged_job :
    (runSite { backend := .postgres } (failover (submittedWith []))).takesOver "b" = true ∧
      ¬ (runSite { backend := .postgres } (failover (submittedWith []))).Current
        (fun _ => "server") "b" := by
  refine ⟨by decide +kernel, ?_⟩
  rintro ⟨env, jobs, -⟩
  have missing : ((runSite { backend := .postgres } (failover (submittedWith []))).server "b").job
      "0.server" = none := by decide +kernel
  have stored : ((runSite { backend := .postgres } (failover (submittedWith []))).store.jobs.lookup
      "0.server").isSome = true := by decide +kernel
  obtain ⟨server, script, decoded⟩ := Server.job_boot "server"
    (runSite { backend := .postgres } (failover (submittedWith []))).store env "0.server"
  obtain ⟨doc, found⟩ := Option.isSome_iff_exists.mp stored
  have known := (missing.symm.trans (jobs "0.server")).trans decoded
  rw [found] at known
  cases known

end Runs

end OpenTorque.HA
