import Mathlib.Algebra.Order.Group.Nat
import OpenTorque.Core.Transition
import OpenTorque.Mom.Cluster

/-! Results of finished jobs. A daemon tells the server once about each process that has
ended and then forgets the job, whatever became of the obituary. So no result is lost
exactly when every obituary gets through, provided the status that it carries is still
that of the process. The latter needs that a daemon is told to start a job at most once
while the job is in its table. -/
namespace OpenTorque.Mom
open Pbs (Server Env)
open Transition (Along watched)

/-! ### A daemon starts a job of its table once -/

/-- How often a daemon may still be told to start the job. -/
def openings : Option Job → Nat
  | some j => if j.tasks = [] then 1 else 0
  | none => 0

theorem openings_le_one (o : Option Job) : openings o ≤ 1 := by
  unfold openings
  split
  · split <;> omega
  · omega

theorem openings_update {jobs : String → Option Job} {id : String} (found : jobs id = some j)
    (same : j'.tasks = j.tasks) (x : String) :
    openings (Function.update jobs id (some j') x) = openings (jobs x) := by
  by_cases here : x = id
  · subst here
    simp [openings, found, same]
  · rw [Function.update_of_ne here]

theorem Daemon.Handles.openings_le {m : Daemon} (handles : m.Handles msg answer) (x : String) :
    openings (m.job x) ≤ openings (answer.1.job x) + if msg = .commit x then 1 else 0 := by
  cases handles with
  | refused | noted => exact Nat.le_add_right ..
  | @queued id free =>
    by_cases here : x = id
    · subst here
      simp [openings, free]
    · simp [here]
  | scripted found | marked found =>
    rw [job_putJob]
    refine Nat.le_add_right_of_le (Eq.ge (openings_update found ?_ x))
    rfl
  | reaped =>
    rw [job_killStaleSession]
    exact Nat.le_add_right ..
  | written found =>
    rw [job_putJob, job_killStaleSession]
    refine Nat.le_add_right_of_le (Eq.ge (openings_update found ?_ x))
    rfl
  | @started j id found =>
    by_cases here : x = id
    · subst here
      have := openings_le_one (m.job x)
      simp only [if_true]
      omega
    · simp [here]

theorem Daemon.Handles.opens {m : Daemon} {id : String} (handles : m.Handles (.queueJob id) answer)
    (positive : answer.2 ≠ none) : openings (m.job id) = 0 ∧ openings (answer.1.job id) = 1 := by
  cases handles with
  | refused => exact absurd rfl positive
  | queued free => simp [openings, free]

def Conn.pending (mom id : String) (k : Conn) : Nat :=
  if k.node = mom ∧ k.job = id ∧ k.stage ≠ .queueJob then 1 else 0

/-- A request to start the job for whose reply nobody waits. -/
def posted (mom id : String) (letter : Letter) : Nat :=
  if letter = ⟨mom, .commit id⟩ then 1 else 0

namespace Cluster

def pendingCommits (c : Cluster) (mom id : String) : Nat :=
  (c.conns.map (·.pending mom id)).sum + (c.mail.map (posted mom id)).sum

def CommitsOnce (c : Cluster) : Prop :=
  ∀ mom id, c.pendingCommits mom id ≤ openings ((c.moms mom).job id)

theorem sends_posted (s : Server) (env : Env) (step : Pbs.Step) (mom id : String) :
    ((sends s env step).map (posted mom id)).sum = 0 := by
  unfold sends
  split
  · rw [List.map_map, List.sum_eq_zero]
    simp [posted]
  · rfl

/-- What is left open after a request is what was open before, but for the start that
the request itself asks for. -/
theorem openings_tell (c : Cluster) (launch : Launch) (letter : Letter) (mom id : String) :
    openings ((c.moms mom).job id) ≤
      openings (((c.tell launch letter).moms mom).job id) + posted mom id letter := by
  obtain ⟨node, msg⟩ := letter
  by_cases here : mom = node
  · subst here
    have left := ((c.moms mom).handle_handles launch msg).openings_le id
    simpa [tell, posted] using left
  · simp [tell, here]

theorem posted_letter_le (k : Conn) (mom id : String) : posted mom id k.letter ≤ k.pending mom id := by
  obtain ⟨job, node, script, stage⟩ := k
  cases stage <;> simp [posted, Conn.letter, Conn.message, Conn.pending]

variable {c : Cluster}

theorem pending_erase {k : Conn} (open_ : k ∈ c.conns) (mom id : String) :
    k.pending mom id + ((c.conns.erase k).map (·.pending mom id)).sum =
      (c.conns.map (·.pending mom id)).sum := List.sum_map_erase _ open_

theorem CommitsOnce.exchange (once : c.CommitsOnce) {k : Conn} (open_ : k ∈ c.conns) :
    (c.exchange env k d launch outcome).CommitsOnce := by
  intro mom id
  have bound := once mom id
  have shrinks := pending_erase open_ mom id
  have covered := posted_letter_le k mom id
  have left := c.openings_tell launch k.letter mom id
  unfold pendingCommits at bound
  -- a connection that goes away gives back at least the start its request asked for
  have given : ((c.tell launch k.letter).undo env k d).pendingCommits mom id ≤
      openings (((c.tell launch k.letter).moms mom).job id) := by
    simp only [pendingCommits, undo, tell] at left ⊢
    omega
  cases outcome with
  | abandoned =>
    simp only [Cluster.exchange, undo, pendingCommits, List.map_append, List.sum_append,
      List.map_cons, List.map_nil, List.sum_singleton]
    omega
  | replyLost => exact given
  | answered =>
    simp only [Cluster.exchange]
    split
    · exact given
    case h_2 text k' positive advanced =>
      simp only [pendingCommits, tell, List.map_cons, List.sum_cons] at left ⊢
      cases stage : k.stage with
      | queueJob =>
        simp only [Conn.advance, stage, Option.some.injEq] at advanced
        subst advanced
        simp only [Conn.letter, Conn.message, stage] at positive left ⊢
        by_cases here : k.node = mom ∧ k.job = id
        · obtain ⟨rfl, rfl⟩ := here
          have opened := ((c.moms k.node).handle_handles launch (.queueJob k.job)).opens (by simp [positive])
          have counted : Conn.pending k.node k.job { k with stage := .jobScript } = 1 := by
            simp [Conn.pending]
          rw [Function.update_self]
          omega
        · have closed : Conn.pending mom id { k with stage := .jobScript } = 0 := by
            simp only [Conn.pending]
            exact if_neg fun same => here ⟨same.1, same.2.1⟩
          have uncounted : posted mom id ⟨k.node, .queueJob k.job⟩ = 0 := by simp [posted]
          omega
      | jobScript =>
        simp only [Conn.advance, stage, Option.some.injEq] at advanced
        subst advanced
        have uncounted : posted mom id k.letter = 0 := by
          simp [posted, Conn.letter, Conn.message, stage]
        have same : Conn.pending mom id { k with stage := .commit } = k.pending mom id := by
          simp [Conn.pending, stage]
        omega
      | commit => simp [Conn.advance, stage] at advanced
    · exact given

theorem openings_finish (m : Daemon) (sid : Nat) (code : Int) (id : String) :
    openings ((m.finish sid code).job id) = openings (m.job id) := by
  obtain same | ⟨key, j, found, -, changed⟩ := m.job_finish sid code
  · rw [same]
  · rw [changed]
    by_cases here : id = key
    · subst here
      simp [openings, found, Job.finish]
    · rw [Function.update_of_ne here]

theorem ending_eq {mom id : String} (terminated : c.ending mom id = some (j, code)) :
    (c.moms mom).job id = some j ∧ j.exited = some code := by
  simpa [ending, Option.bind_eq_some_iff, and_assoc] using terminated

theorem tasks_ne_nil {j : Job} (terminated : j.exited = some code) : j.tasks ≠ [] := by
  intro none
  simp [Job.exited, none] at terminated

theorem CommitsOnce.next (once : c.CommitsOnce) (event : Event) : (c.next event).CommitsOnce := by
  intro mom id
  have bound := once mom id
  cases event with
  | server env step =>
    simp only [Cluster.next]
    split_ifs
    · simpa [pendingCommits, sends_posted] using bound
    · exact bound
  | connect job node =>
    simp only [Cluster.next]
    split_ifs
    · simpa [pendingCommits, Conn.pending] using bound
    · exact bound
  | unreachable env d =>
    simp only [Cluster.next]
    split_ifs <;> exact bound
  | exchange env k detached launch outcome =>
    simp only [Cluster.next]
    split_ifs with possible
    · exact once.exchange possible.1 mom id
    · exact bound
  | deliver letter launch =>
    simp only [Cluster.next]
    split_ifs with listed
    · have left := c.openings_tell launch letter mom id
      have shrinks := List.sum_map_erase (posted mom id) listed
      simp only [pendingCommits, tell] at bound left ⊢
      omega
    · exact bound
  | drop letter =>
    have shrinks : ((c.mail.erase letter).map (posted mom id)).sum ≤ (c.mail.map (posted mom id)).sum :=
      (List.erase_sublist.map _).sum_le_sum (by simp)
    simp only [Cluster.next, pendingCommits] at bound ⊢
    omega
  | exit node sid code =>
    simp only [Cluster.next, pendingCommits] at bound ⊢
    by_cases here : mom = node
    · subst here
      rwa [Function.update_self, openings_finish]
    · rwa [Function.update_of_ne here]
  | poll node job usage remote privileged delivery =>
    simp only [Cluster.next]
    split
    · exact bound
    case h_2 j code terminated =>
      obtain ⟨found, terminated⟩ := ending_eq terminated
      have closed : openings ((c.moms node).job job) = 0 := by
        simp [openings, found, tasks_ne_nil terminated]
      have moms : openings (((Function.update c.moms node ((c.moms node).removeJob job)) mom).job id) =
          openings ((c.moms mom).job id) := by
        by_cases here : mom = node
        · subst here
          by_cases same : id = job
          · subst same
            simp only [Function.update_self, Daemon.job_removeJob]
            exact closed.symm
          · simp [same]
        · rw [Function.update_of_ne here]
      simp only [processExited]
      split <;> exact bound.trans_eq moms.symm
  | obituary env o =>
    simp only [Cluster.next]
    split_ifs <;> exact bound

end Cluster

/-! ### The status that an obituary carries -/

/-- The job has at most one process, and its status is that of the process if that has
ended. -/
def Job.Agrees (j : Job) : Prop :=
  j.tasks.length ≤ 1 ∧ ∀ t ∈ j.tasks, t.exit = none ∨ t.exit = some j.exitStatus

theorem Job.Agrees.exited {j : Job} (agrees : j.Agrees) (terminated : j.exited = some code) :
    j.exitStatus = code := by
  unfold Job.exited at terminated
  split at terminated
  · cases terminated
  · obtain ⟨t, first, ended⟩ := Option.bind_eq_some_iff.mp terminated
    rcases agrees.2 t (List.mem_of_mem_head? first) with running | same
    · simp [running] at ended
    · exact Option.some.inj (same.symm.trans ended)

theorem Job.Agrees.finish {j : Job} (agrees : j.Agrees) (own : ∃ t ∈ j.tasks, t.sid = sid)
    (code : Int) : (j.finish sid code).Agrees := by
  obtain ⟨single, -⟩ := agrees
  obtain ⟨t, member, rfl⟩ := own
  have only : j.tasks = [t] := by
    match tasks : j.tasks with
    | [] => simp [tasks] at member
    | [x] => simpa [tasks, eq_comm] using member
    | x :: y :: rest => simp [tasks] at single
  simp [Job.Agrees, Job.finish, only]

namespace Daemon

def Agrees (m : Daemon) : Prop := ∀ id j, m.job id = some j → j.Agrees

theorem Agrees.update {m m' : Daemon} {id : String} (agrees : m.Agrees)
    (changed : m'.job = Function.update m.job id entry) (kept : ∀ j, entry = some j → j.Agrees) :
    m'.Agrees := by
  intro x j found
  rw [changed] at found
  by_cases here : x = id
  · subst here
    exact kept j (by simpa using found)
  · exact agrees x j (by rwa [Function.update_of_ne here] at found)

theorem Agrees.finish {m : Daemon} (agrees : m.Agrees) (sid : Nat) (code : Int) :
    (m.finish sid code).Agrees := by
  obtain same | ⟨id, j, found, own, changed⟩ := m.job_finish sid code
  · intro id j found
    exact agrees id j (same ▸ found)
  · refine agrees.update changed fun j' same => ?_
    cases same
    exact (agrees id j found).finish own code

/-- A request that starts no second process and comes before the end of the first. -/
def Timely (m : Daemon) : Message → Prop
  | .commit id => ∀ j, m.job id = some j → j.tasks = []
  | .deleteJob id => ∀ j, m.job id = some j → ∀ t ∈ j.tasks, t.exit = none
  | _ => True

theorem Agrees.handle {m : Daemon} (agrees : m.Agrees) (timely : m.Timely msg) (launch : Launch) :
    (m.handle launch msg).1.Agrees := by
  have handles := m.handle_handles launch msg
  generalize m.handle launch msg = answer at handles
  cases handles with
  | refused | noted => exact agrees
  | queued => exact agrees.update (job_putJob ..) fun j same => by cases same; simp [Job.Agrees]
  | scripted found =>
    refine agrees.update (job_putJob ..) fun j same => ?_
    cases same
    have kept := agrees _ _ found
    exact kept
  | reaped =>
    intro id j found
    exact agrees id j (by rwa [job_killStaleSession] at found)
  | written found =>
    refine agrees.update ((job_putJob ..).trans (by rw [job_killStaleSession])) fun j same => ?_
    cases same
    have kept := agrees _ _ found
    exact kept
  | started found =>
    refine agrees.update ((job_startJob ..).trans (by rw [job_killStaleSession])) fun j same => ?_
    cases same
    simp [Job.Agrees, Job.start, Job.writeScript, timely _ found]
  | marked found =>
    refine agrees.update (job_putJob ..) fun j same => ?_
    cases same
    exact ⟨(agrees _ _ found).1, fun t member => .inl (timely _ found t member)⟩

end Daemon

namespace Cluster

/-- No `DeleteJob` reaches a daemon after the process of its job has ended. -/
def KeepsStatus (c : Cluster) : Event → Prop
  | .deliver ⟨mom, .deleteJob id⟩ _ =>
    ∀ j, (c.moms mom).job id = some j → ∀ t ∈ j.tasks, t.exit = none
  | _ => True

/-- What is known about the tables of the daemons. -/
structure Sound (c : Cluster) : Prop where
  once : c.CommitsOnce
  agrees : ∀ mom, (c.moms mom).Agrees

variable {c : Cluster} {id : String}

theorem CommitsOnce.unstarted (once : c.CommitsOnce) (pending : 0 < c.pendingCommits mom id)
    (found : (c.moms mom).job id = some j) : j.tasks = [] := by
  have bound := once mom id
  rw [found] at bound
  by_contra started
  simp only [openings, started, if_false] at bound
  omega

theorem CommitsOnce.timely_conn (once : c.CommitsOnce) {k : Conn} (open_ : k ∈ c.conns) :
    (c.moms k.node).Timely k.message := by
  cases stage : k.stage with
  | queueJob | jobScript => simp [Conn.message, stage, Daemon.Timely]
  | commit =>
    simp only [Conn.message, stage, Daemon.Timely]
    have pending : 0 < c.pendingCommits k.node k.job := by
      have shrinks := pending_erase open_ k.node k.job
      have counted : k.pending k.node k.job = 1 := by simp [Conn.pending, stage]
      unfold pendingCommits
      omega
    exact fun j => once.unstarted pending

theorem CommitsOnce.timely_letter (once : c.CommitsOnce) {letter : Letter} (listed : letter ∈ c.mail)
    (kept : c.KeepsStatus (.deliver letter launch)) : (c.moms letter.mom).Timely letter.msg := by
  obtain ⟨mom, msg⟩ := letter
  cases msg with
  | queueJob | jobScript => trivial
  | commit id =>
    have pending : 0 < c.pendingCommits mom id := by
      have shrinks := List.sum_map_erase (posted mom id) listed
      have counted : posted mom id ⟨mom, .commit id⟩ = 1 := by simp [posted]
      unfold pendingCommits
      omega
    exact fun j => once.unstarted pending
  | deleteJob id => exact kept

theorem agrees_tell (letter : Letter) (agrees : ∀ mom, (c.moms mom).Agrees)
    (timely : (c.moms letter.mom).Timely letter.msg) (launch : Launch) (mom : String) :
    ((c.tell launch letter).moms mom).Agrees := by
  by_cases here : mom = letter.mom
  · subst here
    simp only [tell, Function.update_self]
    exact (agrees _).handle timely launch
  · simp only [tell, Function.update_of_ne here]
    exact agrees mom

theorem Sound.next (sound : c.Sound) (kept : c.KeepsStatus event) : (c.next event).Sound := by
  refine ⟨sound.once.next event, fun mom => ?_⟩
  have same := sound.agrees mom
  cases event with
  | server | connect | unreachable | obituary =>
    simp only [Cluster.next]
    split_ifs <;> exact same
  | drop => exact same
  | exchange env k detached launch outcome =>
    simp only [Cluster.next]
    split_ifs with possible
    · have told := agrees_tell k.letter sound.agrees
        (sound.once.timely_conn possible.1) launch mom
      cases outcome with
      | abandoned => exact same
      | replyLost => exact told
      | answered =>
        simp only [Cluster.exchange]
        split <;> exact told
    · exact same
  | deliver letter launch =>
    simp only [Cluster.next]
    split_ifs with listed
    · exact agrees_tell letter sound.agrees (sound.once.timely_letter listed kept) launch mom
    · exact same
  | exit node sid code =>
    simp only [Cluster.next]
    by_cases here : mom = node
    · subst here
      rw [Function.update_self]
      exact same.finish sid code
    · rwa [Function.update_of_ne here]
  | poll node id usage remote privileged delivery =>
    simp only [Cluster.next]
    split
    · exact same
    · have removed : (Function.update c.moms node ((c.moms node).removeJob id) mom).Agrees := by
        by_cases here : mom = node
        · subst here
          rw [Function.update_self]
          exact same.update (Daemon.job_removeJob ..) fun j gone => by cases gone
        · rwa [Function.update_of_ne here]
      simp only [processExited]
      split <;> exact removed

/-! ### Results -/

/-- The ended processes whose jobs a daemon has removed and the obituaries that the
server has processed, each with the job and a status. -/
structure Results where
  removed : List (String × Int) := []
  processed : List (String × Int) := []

/-- The obituary that a step of the server processes. -/
def processes (s : Server) (env : Env) : Pbs.Step → List (String × Int)
  | .request (.jobObit remote privileged id status attrs) =>
    if (s.handleJobObit env remote privileged id status attrs).reply = .ok then [(id, status)] else []
  | _ => []

def note (c : Cluster) (event : Event) (r : Results) : Results :=
  match event with
  | .server env step => { r with processed := processes c.server env step ++ r.processed }
  | .poll mom id usage remote privileged delivery =>
    match c.ending mom id with
    | none => r
    | some (j, code) =>
      { removed := (id, code) :: r.removed
        processed :=
          match delivery with
          | .handled env => processes c.server env
              (.request (.jobObit remote privileged id j.exitStatus (usedAttrs usage))) ++ r.processed
          | _ => r.processed }
  | .obituary env o =>
    if o ∈ c.obits then
      { r with processed := processes c.server env (.request o.request) ++ r.processed }
    else r
  | _ => r

/-- An obituary that a daemon sends is handled by the server over a trusted connection. -/
def Delivers (c : Cluster) : Event → Prop
  | .poll mom id _ remote privileged delivery =>
    match delivery with
    | .handled _ => privileged = true ∨ remote ∈ c.server.authMap
    | _ => c.ending mom id = none
  | _ => True

theorem processes_obituary {s : Server} (trusted : privileged = true ∨ remote ∈ s.authMap) :
    processes s env (.request (.jobObit remote privileged id status attrs)) = [(id, status)] := by
  have known : (!privileged && decide (remote ∉ s.authMap)) ≠ true := by
    rcases trusted with low | listed
    · simp [low]
    · simp [listed]
  have accepted : (s.handleJobObit env remote privileged id status attrs).reply = .ok := by
    rw [Server.handleJobObit, if_neg known]
    split <;> rfl
  exact if_pos accepted

/-- An event that delivers its obituary, if it sends one, keeps every removed result among
the processed ones. -/
theorem Sound.note (sound : c.Sound) (delivers : c.Delivers event)
    (kept : r.removed.Subperm r.processed) :
    (c.note event r).removed.Subperm (c.note event r).processed := by
  cases event with
  | server env step => exact kept.trans (List.sublist_append_right ..).subperm
  | poll mom id usage remote privileged delivery =>
    simp only [Cluster.note]
    split
    · exact kept
    case h_2 j code terminated =>
      cases delivery with
      | late | lost => simp [Delivers, terminated] at delivers
      | handled env =>
        obtain ⟨found, ended⟩ := ending_eq terminated
        have same := (sound.agrees mom id j found).exited ended
        simp only [processes_obituary delivers, same, List.singleton_append]
        exact (List.subperm_cons _).mpr kept
  | obituary env o =>
    simp only [Cluster.note]
    split_ifs
    · exact kept.trans (List.sublist_append_right ..).subperm
    · exact kept
  | connect | unreachable | exchange | deliver | drop | exit => exact kept

/-- Every process that has ended and whose job a daemon has forgotten is matched by an
obituary of its own, with its status, that the server has processed, in a run in which
obituaries get through and no `DeleteJob` comes after the end of its process. -/
theorem results_not_lost (s : Server) (events : List Event)
    (run : Along (watched next note) (fun w event => w.1.Delivers event ∧ w.1.KeepsStatus event)
      ({ server := s }, {}) events) :
    let results := (events.foldl (watched next note) ({ server := s }, {})).2
    results.removed.Subperm results.processed := by
  refine (run.invariant (I := fun w => w.1.Sound ∧ w.2.removed.Subperm w.2.processed) ?_ ?_).2
  · rintro ⟨c, r⟩ event ⟨sound, kept⟩ ⟨delivers, keeps⟩
    exact ⟨sound.next keeps, sound.note delivers kept⟩
  · refine ⟨⟨fun mom id => Nat.zero_le _, fun mom id j found => ?_⟩, List.Subperm.refl _⟩
    cases found

instance (c : Cluster) (event : Event) : Decidable (c.Delivers event) := by
  unfold Delivers
  split
  · split <;> infer_instance
  · infer_instance

instance (c : Cluster) (event : Event) : Decidable (c.KeepsStatus event) := by
  unfold KeepsStatus
  split
  · exact decidable_of_iff (∀ j ∈ (c.moms _).job _, ∀ t ∈ j.tasks, t.exit = none) Iff.rfl
  · infer_instance

def jobStarted : Server :=
  Pbs.fromEmpty (Pbs.atOnce [.manager (.createQueue "batch" []),
    .manager (.createNode "n1" [{ name := "np", value := "4" }]), .queueJob "alice@host" "batch" [],
    .jobScript "0.server" "exit 3" false, .commit "0.server", .runJob "0.server" "n1"])

/-- The requests of its dispatch are answered and its process ends with a status. -/
def executed (code : Int) : List Event :=
  .connect "0.server" "n1" ::
    [Stage.queueJob, .jobScript, .commit].map (fun stage =>
      .exchange { now := 2 } ⟨"0.server", "n1", "exit 3", stage⟩ false {} .answered) ++
    [.exit "n1" 1 code]

/-- The daemon looks at the job and connects from a privileged port, if it can connect. -/
def polled (delivery : Delivery) : Event :=
  .poll "n1" "0.server" [("walltime", "00:00:01")] "n1:1023" true delivery

def runOf (events : List Event) : Cluster × Results :=
  events.foldl (watched next note) ({ server := jobStarted }, {})

def delivered : List Event := executed 3 ++ [polled (.handled { now := 3 })]

theorem results_not_lost_delivered :
    (runOf delivered).2.removed = [("0.server", 3)] ∧
      (runOf delivered).2.removed.Subperm (runOf delivered).2.processed :=
  ⟨by decide +kernel, results_not_lost jobStarted delivered (by decide +kernel)⟩

/-- The server cannot be reached when the daemon sends the obituary: the daemon forgets
the job, and the server takes it to be running. -/
theorem unreachable_server_loses_result :
    let w := runOf (executed 3 ++ [polled .lost])
    (w.2.removed = [("0.server", 3)] ∧ w.2.processed = []) ∧
      "0.server" ∉ (w.1.moms "n1").jobs ∧
      (w.1.server.jobMgr.jobs.lookup "0.server").map (·.state) = some .running := by
  decide +kernel

/-- A `DeleteJob` between the end of the process and the look at it: the obituary gets
through with another status. -/
def deletedLate : List Event :=
  executed 3 ++ [.server { now := 3 } (.request (.deleteJob "0.server")),
    .deliver ⟨"n1", .deleteJob "0.server"⟩ {}, polled (.handled { now := 3 })]

example : (runOf deletedLate).2.removed = [("0.server", 3)] ∧
    (runOf deletedLate).2.processed = [("0.server", -1)] := by
  decide +kernel

end Cluster

end OpenTorque.Mom
