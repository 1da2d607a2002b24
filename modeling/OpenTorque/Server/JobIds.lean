import OpenTorque.Core.Transition
import OpenTorque.Server.Edits

/-! The counter behind `NextJobID` against the ids in the job manager and in the store,
over runs of the server that end in a shutdown or a crash. -/
namespace OpenTorque.Pbs
open Transition

/-- The number an id starts with, if a dot ends it. -/
def seqOf (id : String) : Option Nat :=
  match id.toList.takeWhile Char.isDigit, id.toList.dropWhile Char.isDigit with
  | digits@(_ :: _), '.' :: _ => some (Nat.ofDigitChars 10 digits 0)
  | _, _ => none

section Numbers

theorem seqOf_of_append {id : String} (split : id.toList = digits ++ '.' :: rest)
    (numeric : ∀ c ∈ digits, c.isDigit) (nonempty : digits ≠ []) :
    seqOf id = some (Nat.ofDigitChars 10 digits 0) := by
  have taken : id.toList.takeWhile Char.isDigit = digits := by
    rw [split, List.takeWhile_append_of_pos numeric]; simp
  have dropped : id.toList.dropWhile Char.isDigit = '.' :: rest := by
    rw [split, List.dropWhile_append_of_pos numeric]; simp
  obtain ⟨c, cs, rfl⟩ := List.exists_cons_of_ne_nil nonempty
  simp [seqOf, taken, dropped]

theorem append_of_seqOf {id : String} (found : seqOf id = some m) :
    ∃ digits rest, id.toList = digits ++ '.' :: rest ∧ (∀ c ∈ digits, c.isDigit) ∧ digits ≠ [] := by
  unfold seqOf at found
  split at found
  case h_1 first more rest taken dropped =>
    refine ⟨first :: more, rest, ?_, ?_, by simp⟩
    · rw [← taken, ← dropped, List.takeWhile_append_dropWhile]
    · rw [← taken]
      exact fun c member => (List.mem_takeWhile_imp member)
  case h_2 => simp at found

theorem seqOf_formatJobID (m : JobManager) (n : Nat) (counter : m.nextJobID = n) :
    seqOf m.formatJobID = some n := by
  have split : m.formatJobID.toList = Nat.toDigits 10 n ++ '.' :: m.serverName.toList := by
    simp [JobManager.formatJobID, counter, itoa, Nat.toList_repr]
  rw [seqOf_of_append split (fun c => Nat.isDigit_of_mem_toDigits (by omega) (by omega))
    Nat.toDigits_ne_nil, Nat.ofDigitChars_toDigits (by omega) (by omega)]

theorem no_dot_before_bracket (stem rest : List Char) (undotted : '.' ∉ stem) :
    ((stem ++ '[' :: rest).dropWhile Char.isDigit).head? ≠ some '.' := by
  induction stem with
  | nil => simp
  | cons c stem ih =>
    rw [List.cons_append, List.dropWhile_cons]
    split
    · exact ih fun member => undotted (List.mem_cons_of_mem _ member)
    · rintro ⟨⟩
      exact undotted (by simp)

theorem sequence_text (id : String) :
    '.' ∉ (((Text.cutKey '.' id).map (·.1)).getD id).toList ∨
      (((Text.cutKey '.' id).map (·.1)).getD id).toList.head? = some '.' := by
  cases found : Text.cut '.' id with
  | none => simpa [Text.cutKey, found] using .inl (Text.not_mem_of_cut_eq_none found)
  | some parts =>
    obtain ⟨split, undotted⟩ := Text.cut_eq_some found
    by_cases empty : parts.1 = ""
    · right; simp [Text.cutKey, found, Option.filter, empty, split]
    · left; simpa [Text.cutKey, found, Option.filter, empty] using undotted

/-- The id of an array task has a bracket before its first dot, or starts with a dot. -/
theorem seqOf_arrayTaskID (id server : String) (index : Int) :
    seqOf (arrayTaskID id server index) = none := by
  cases found : seqOf (arrayTaskID id server index) with
  | none => rfl
  | some m =>
    exfalso
    obtain ⟨digits, rest, split, numeric, nonempty⟩ := append_of_seqOf found
    have dotted : ((arrayTaskID id server index).toList.dropWhile Char.isDigit).head? = some '.' := by
      rw [split, List.dropWhile_append_of_pos numeric]; simp
    obtain ⟨c, cs, rfl⟩ := List.exists_cons_of_ne_nil nonempty
    have digit : c.isDigit := numeric c (by simp)
    have shape : (arrayTaskID id server index).toList =
        (((Text.cutKey '.' id).map (·.1)).getD id).toList ++
          '[' :: ((itoa index).toList ++ "].".toList ++ server.toList) := by
      simp [arrayTaskID]
    rcases sequence_text id with undotted | leading
    · rw [shape] at dotted
      exact no_dot_before_bracket _ _ undotted dotted
    · rw [shape, List.head?_eq_some_iff.mp leading |>.choose_spec] at split
      cases (List.cons.inj split).1
      simp at digit

/-- A text that starts with a number and a dot finds only an id with that number. -/
theorem seqOf_resolve {m : JobManager} (numbered : seqOf given = some n)
    (found : m.resolve order given = some key) : seqOf key = some n := by
  obtain ⟨digits, rest, split, numeric, nonempty⟩ := append_of_seqOf numbered
  have trimmed : (Text.trimSpace given).toList = digits ++ '.' :: rest.rdropWhile Text.isSpace := by
    rw [Text.trimSpace, String.toList_ofList, split,
      Text.trim_append (fun c member => isSpace_of_isDigit (numeric c (List.mem_of_mem_head? member))) (by decide)]
  have dotted : Text.contains (Text.trimSpace given) "." :=
    Text.contains_of_append (trimmed.trans (by simp) :
      _ = digits ++ ".".toList ++ rest.rdropWhile Text.isSpace)
  simp only [JobManager.resolve, dotted, if_true] at found
  split at found
  · cases found
    rw [seqOf_of_append trimmed numeric nonempty, ← numbered, seqOf_of_append split numeric nonempty]
  · cases found

end Numbers

/-- An id with a number below the counter, or without one. -/
def Issued (next : Int) (id : String) : Prop := ∀ n, seqOf id = some n → (n : Int) < next

instance (next : Int) (id : String) : Decidable (Issued next id) :=
  match numbered : seqOf id with
  | none => isTrue (by simp [Issued, numbered])
  | some n => decidable_of_iff ((n : Int) < next) (by simp [Issued, numbered])

/-- The counter a server reads from a store when it starts. -/
def Store.savedCounter (st : Store) : Int := (st.serverDB.bind Config.recoverNextJobID).getD 0

/-- The counter is in range, and every id in the manager and in the store was issued
before it. -/
structure Server.Numbered (next : Int) (s : Server) : Prop where
  counter : s.jobMgr.nextJobID = next
  nonneg : 0 ≤ next
  fits : next ≤ maxInt
  managed : ∀ id ∈ s.jobMgr.jobs, Issued next id
  stored : ∀ id ∈ s.store.jobs, Issued next id
  saved : 0 ≤ s.store.savedCounter

namespace Issued
variable {id : String} {next : Int}

theorem arrayTask (id server : String) (index : Int) :
    Issued next (arrayTaskID id server index) := by
  simp [Issued, seqOf_arrayTaskID]

theorem mono (issued : Issued next id) (later : next ≤ next') : Issued next' id :=
  fun n numbered => Int.lt_of_lt_of_le (issued n numbered) later

end Issued

namespace Server.Numbered
variable {s t : Server} {next : Int} {id given : String} {j : Job} {env : Env}

section
variable (numbered : s.Numbered next)
include numbered

theorem onQueues : (s.onQueues change).Numbered next where
  __ := numbered

theorem onNodes : (s.onNodes change).Numbered next where
  __ := numbered

theorem onConfig : (s.onConfig change).Numbered next where
  __ := numbered

/-- A change of the stored jobs that adds none but issued ones. -/
theorem onStore (document : (change s.store).serverDB = s.store.serverDB)
    (kept : ∀ id ∈ (change s.store).jobs, id ∈ s.store.jobs ∨ Issued next id) :
    (s.onStore change).Numbered next where
  __ := numbered
  stored id member := (kept id member).elim (numbered.stored id) fun issued => issued
  saved := by
    have saved := numbered.saved
    simpa only [Store.savedCounter, Server.onStore_store, document] using saved

/-- A change of the job manager that keeps the counter and adds no job but issued ones. -/
theorem onJobs (counter : (change s.jobMgr).nextJobID = s.jobMgr.nextJobID)
    (kept : ∀ id ∈ (change s.jobMgr).jobs, id ∈ s.jobMgr.jobs ∨ Issued next id) :
    (s.onJobs change).Numbered next where
  __ := numbered
  counter := counter.trans numbered.counter
  managed id member := (kept id member).elim (numbered.managed id) fun issued => issued

end

theorem mem_insert_issued {m : Assoc V} (issued : Issued next id) (k : String)
    (member : k ∈ m.insert id v) : k ∈ m ∨ Issued next k := by
  rcases (AList.mem_insert _).mp member with same | old
  · exact .inr (same ▸ issued)
  · exact .inl old

section
variable (numbered : s.Numbered next)
include numbered

theorem putJob (issued : Issued next id) :
    (s.putJob id j).Numbered next :=
  numbered.onJobs rfl (mem_insert_issued issued)

theorem addJob (issued : Issued next id) :
    (s.onJobs (·.addJob id j)).Numbered next :=
  numbered.onJobs rfl (mem_insert_issued issued)

theorem updateJobState :
    (s.updateJobState env id state).Numbered next :=
  numbered.onJobs (by simp) fun _ member => .inl (by simpa using member)

theorem removeJob : (s.removeJob id).Numbered next :=
  numbered.onJobs (by simp) fun _ member => .inl ((s.jobMgr.mem_removeJob _ _).mp member).2

theorem saveJob (issued : Issued next id) :
    (s.saveJob id j).Numbered next :=
  numbered.onStore rfl (mem_insert_issued issued)

theorem saveJobScript (issued : Issued next id) :
    (s.onStore (·.saveJobScript id data)).Numbered next := by
  refine numbered.onStore rfl fun k member => ?_
  simp only [Store.saveJobScript, Store.fill] at member
  split at member
  · exact mem_insert_issued issued k member
  · exact .inl member

theorem getJob (found : s.getJob env given = some (id, j)) :
    Issued next id :=
  numbered.managed id (mem_of_getJob found)

/-- The client's text of an id that resolves has no number but that of the job. -/
theorem spelling (found : s.getJob env given = some (id, j)) :
    Issued next given := by
  intro n spelled
  simp only [Server.getJob, JobManager.getJob, Option.bind_eq_bind,
    Option.bind_eq_some_iff] at found
  obtain ⟨key, resolved, j', present, -⟩ := found
  exact numbered.managed key (Assoc.mem_of_lookup present) n (seqOf_resolve spelled resolved)

theorem edit (edit : Edit env touched wide s t) : t.Numbered next := by
  cases edit with
  | put _ known => exact numbered.putJob (numbered.managed _ known)
  | state => exact numbered.updateJobState
  | add => exact (numbered.addJob (.arrayTask _ _ _)).saveJobScript (.arrayTask _ _ _)
  | remove => exact numbered.removeJob
  | save known => exact numbered.saveJob (numbered.managed _ known)
  | count | recount => exact numbered.onQueues
  | unscript => exact numbered.onStore rfl fun _ member => .inl member
  | forget => exact numbered.onStore rfl fun _ member => .inl (AList.mem_erase.mp member).2
  | release | down => exact numbered.onNodes

theorem path (path : Path env (fun _ => True) True s t) :
    t.Numbered next := by
  induction path with
  | refl => exact numbered
  | tail _ edit ih => exact ih.edit edit

theorem start (issued : Issued next id) :
    (s.start env id j names slots port).Numbered next := by
  have assigned : (s.assignOn names id slots).Numbered next :=
    List.foldlRecOn names _ numbered fun _ assigned _ _ => assigned.onNodes
  exact { (assigned.putJob issued).onQueues.saveJob issued with }

theorem putObject : (s.onJobs (·.putObject id j)).Numbered next := by
  by_cases present : id ∈ s.jobMgr.jobs
  · refine numbered.onJobs ?_ fun k member => ?_
    · simp [JobManager.putObject, present]
    · simp only [JobManager.putObject, present, if_true, JobManager.put_jobs] at member
      exact mem_insert_issued (numbered.managed id present) k member
  · refine numbered.onJobs ?_ fun k member => .inl ?_
    · simp [JobManager.putObject, present]
    · simpa [JobManager.putObject, present] using member

theorem advance (room : next < maxInt) :
    (s.onJobs (·.advance)).Numbered (next + 1) where
  counter := by
    have low := numbered.nonneg
    rw [onJobs_jobMgr, JobManager.advance_nextJobID, numbered.counter]
    exact wrap64_of_fits (by unfold minInt; omega) room
  nonneg := Int.le_add_one numbered.nonneg
  fits := room
  managed id member := (numbered.managed id member).mono (by omega)
  stored id member := (numbered.stored id member).mono (by omega)
  saved := numbered.saved

theorem formatJobID : Issued (next + 1) s.jobMgr.formatJobID := by
  obtain ⟨n, same⟩ := Int.eq_ofNat_of_zero_le numbered.nonneg
  intro m found
  rw [seqOf_formatJobID _ n (numbered.counter.trans same)] at found
  cases found
  omega

theorem saveNodes : (s.saveNodes env).Numbered next :=
  numbered.onStore rfl fun _ member => .inl member

theorem saveQueue : (s.saveQueue env name).Numbered next := by
  unfold Server.saveQueue
  split
  · exact numbered
  · exact numbered.onStore rfl fun _ member => .inl member

theorem savedCounter_saveServerDB :
    (s.saveServerDB env).store.savedCounter = next := by
  have low := numbered.nonneg
  have read := s.cfg.recoverNextJobID_serverDB (env.order .resources) (n := next)
    (by unfold minInt; omega) numbered.fits
  simp [Store.savedCounter, Server.saveServerDB, Store.saveServerDB, numbered.counter, read]

theorem saveServerDB : (s.saveServerDB env).Numbered next where
  __ := numbered
  saved := numbered.savedCounter_saveServerDB ▸ numbered.nonneg

theorem handleISMessage : (s.handleISMessage env msg).Numbered next := by
  simp only [Server.handleISMessage, tryAutoRegisterNode]
  split
  · exact numbered.onNodes
  · split
    · exact numbered.onNodes.onNodes.saveNodes.onNodes
    · exact numbered.onNodes

theorem manage (done : s.manage env command = some s') :
    s'.Numbered next := by
  cases command with
  | createQueue | setQueue | unsetQueue =>
    simp only [Server.manage, Option.ite_none_left_eq_some, Option.ite_none_right_eq_some] at done
    obtain ⟨-, ⟨⟩⟩ := done
    exact numbered.onQueues.saveQueue
  | deleteQueue =>
    simp only [Server.manage, Option.ite_none_right_eq_some] at done
    obtain ⟨-, ⟨⟩⟩ := done
    exact numbered.onQueues.onStore rfl fun _ member => .inl member
  | createNode =>
    cases done
    exact numbered.onNodes.onNodes.saveNodes
  | deleteNode name =>
    simp only [Server.manage, Option.ite_none_right_eq_some] at done
    obtain ⟨-, ⟨⟩⟩ := done
    have detached : ((s.onNodes (·.erase name)).detach name).Numbered next := { numbered with }
    exact detached.saveNodes
  | setNode =>
    simp only [Server.manage, Option.ite_none_right_eq_some] at done
    obtain ⟨-, ⟨⟩⟩ := done
    exact numbered.onNodes.saveNodes
  | setServer | unsetServer =>
    cases done
    exact numbered.onConfig.saveServerDB
  | unsupported => cases done

end

end Server.Numbered

/-- Steps that may take a number do so while there is one. -/
def Step.HasRoom (s : Server) : Step → Prop
  | .request (.queueJob ..) => s.jobMgr.nextJobID < maxInt
  | _ => True

instance (s : Server) (step : Step) : Decidable (step.HasRoom s) := by
  unfold Step.HasRoom
  split <;> infer_instance

theorem Effect.numbered_next (effect : Effect s env step s') (numbered : s.Numbered next)
    (room : step.HasRoom s) : s'.Numbered next ∨ s'.Numbered (next + 1) := by
  cases effect with
  | unchanged => exact .inl numbered
  | recounted => exact .inl numbered.onQueues
  | numbered => exact .inr (numbered.advance (numbered.counter ▸ room))
  | submitted =>
    exact .inr ((numbered.advance (numbered.counter ▸ room)).addJob numbered.formatJobID)
  | scripted found =>
    exact .inl ((numbered.putJob (numbered.getJob found)).saveJobScript (numbered.spelling found))
  | scriptCommitted found =>
    exact .inl (((numbered.putJob (numbered.getJob found)).saveJobScript
      (numbered.spelling found)).path (.commit trivial trivial fun _ _ _ _ => trivial))
  | committed found => exact .inl (numbered.path (.commit trivial trivial fun _ _ _ _ => trivial))
  | deleted found => exact .inl (numbered.path (.delete trivial))
  | held _ found => exact .inl (numbered.putJob (numbered.getJob found)).onQueues
  | released _ found => exact .inl (numbered.putJob (numbered.getJob found)).onQueues
  | cleared found => exact .inl (numbered.putJob (numbered.getJob found))
  | modified found =>
    exact .inl ((numbered.putJob (numbered.getJob found)).saveJob (numbered.getJob found))
  | moved _ found =>
    exact .inl ((numbered.putJob (numbered.getJob found)).onQueues.saveJob (numbered.getJob found))
  | rerun found => exact .inl (numbered.onNodes.path (.requeue trivial (Server.mem_of_getJob found)))
  | requeued found => exact .inl (numbered.path (.requeue trivial (Server.mem_of_getJob found)))
  | ordered found₁ found₂ =>
    have issued₁ := numbered.getJob found₁
    have issued₂ := numbered.getJob found₂
    exact .inl ((((numbered.putJob issued₁).putJob issued₂).saveJob issued₁).saveJob issued₂)
  | failedDependency found => exact .inl (numbered.putJob (numbered.getJob found))
  | started found => exact .inl (numbered.start (numbered.getJob found))
  | startedMulti found => exact .inl (numbered.start (numbered.getJob found))
  | ended found => exact .inl (numbered.path (.finish trivial (Server.mem_of_getJob found)))
  | managed done => exact .inl (numbered.manage done)
  | authenticated => exact .inl { numbered with }
  | heard => exact .inl numbered.handleISMessage
  | dispatched =>
    simp only [Server.dispatchDone]
    split
    · exact .inl (Server.Numbered.putObject { numbered with })
    · exact .inl { numbered with }
  | @undone d =>
    have ended : (s.endDispatch d).Numbered next := { numbered with }
    simp only [Server.dispatchFailed, Server.undoJobDispatch]
    split
    · exact .inl ended
    · split
      · exact .inl ended.putObject.onQueues
      · exact .inl ended.putObject.onNodes.onQueues
  | nodesChecked => exact .inl (numbered.path (.foldl _ fun _ _ _ => .checkNode fun _ => trivial))
  | promoted => exact .inl (numbered.path (.foldl _ fun _ _ _ => .promote trivial))
  | cleaned => exact .inl (numbered.path (.foldl _ fun _ _ _ => .purge trivial))
  | reconciled => exact .inl (numbered.path (.foldl _ fun _ _ _ => .reconcile trivial))

/-- The life of a server: its steps, an orderly shutdown and a crash, each of the last two
followed by a new start. A crash may come in the middle of a step; `left` is what the
store has received by then. -/
inductive Life where
  | step (env : Env) (step : Step)
  | shutdown (env start : Env)
  | crash (env : Env) (during : Step) (left : Store) (start : Env)

def Server.live (s : Server) : Life → Server
  | .step env step => s.step env step
  | .shutdown env start => Server.boot s.cfg.serverName (s.saveState env).store start
  | .crash _ _ left start => Server.boot s.cfg.serverName left start

/-- What the store can have received between two steps or during one: each of its
documents is from before or from after the step. -/
def Server.Leaves (s : Server) (env : Env) (during : Step) (left : Store) : Prop :=
  (left.serverDB = s.store.serverDB ∨ left.serverDB = (s.step env during).store.serverDB) ∧
    ∀ id ∈ left.jobs.keys, id ∈ s.store.jobs ∨ id ∈ (s.step env during).store.jobs

/-- A number is left for a new job, and a crash leaves no job in the store whose number
the saved counter has not passed. -/
def Server.CounterSaved (s : Server) : Life → Prop
  | .step _ step => step.HasRoom s
  | .shutdown _ _ => True
  | .crash env during left _ => during.HasRoom s ∧ s.Leaves env during left ∧
      ∀ id ∈ left.jobs.keys, Issued left.savedCounter id

section Start

theorem Store.savedCounter_fits (st : Store) : st.savedCounter ≤ maxInt := by
  unfold savedCounter
  cases found : st.serverDB.bind Config.recoverNextJobID with
  | none => decide
  | some n =>
    obtain ⟨doc, -, read⟩ := Option.bind_eq_some_iff.mp found
    exact Config.recoverNextJobID_fits read

theorem Server.recoverServerDB_numbered (name : String) (st : Store)
    (saved : 0 ≤ st.savedCounter) (issued : ∀ id ∈ st.jobs, Issued st.savedCounter id) :
    (Server.new name st).recoverServerDB.Numbered st.savedCounter where
  counter := by
    unfold recoverServerDB Store.savedCounter
    cases doc : (Server.new name st).store.serverDB with
    | none => simp [show st.serverDB = none from doc, Server.new]
    | some doc' =>
      simp only [show st.serverDB = some doc' from doc, Option.bind_some, onJobs_jobMgr,
        onConfig_jobMgr]
      cases Config.recoverNextJobID doc' <;> rfl
  nonneg := saved
  fits := st.savedCounter_fits
  managed := by
    unfold recoverServerDB
    intro id member
    split at member
    · simp [Server.new] at member
    case h_2 doc _ =>
      simp only [onJobs_jobMgr, onConfig_jobMgr] at member
      cases counter : Config.recoverNextJobID doc <;> simp [counter, Server.new] at member
  stored := by
    unfold recoverServerDB
    split <;> exact issued
  saved := by
    unfold recoverServerDB
    split <;> exact saved

theorem Server.Numbered.recoverJob (numbered : s.Numbered next) :
    (Server.recoverJob env s key).Numbered next := by
  unfold Server.recoverJob
  split
  · exact numbered
  case h_2 found => exact (numbered.addJob (numbered.stored key (Assoc.mem_of_lookup found))).onQueues

theorem Server.Numbered.restoreJob (numbered : s.Numbered next) :
    (Server.restoreJob s key).Numbered next := by
  unfold Server.restoreJob
  split
  · exact numbered
  · split
    · exact numbered
    · exact List.foldlRecOn _ _ numbered fun _ kept _ _ => { kept with }

theorem Server.boot_numbered (name : String) (st : Store) (env : Env)
    (saved : 0 ≤ st.savedCounter) (issued : ∀ id ∈ st.jobs, Issued st.savedCounter id) :
    (Server.boot name st env).Numbered st.savedCounter := by
  have counted := Server.recoverServerDB_numbered name st saved issued
  have queued : ((Server.new name st).recoverServerDB.recoverQueues env).Numbered
      st.savedCounter := by
    refine List.foldlRecOn _ _ counted fun s kept key _ => ?_
    unfold Server.recoverQueue
    split
    · exact kept
    · exact kept.onQueues
  have noded : ((Server.new name st).recoverServerDB.recoverQueues env).recoverNodes.Numbered
      st.savedCounter := by
    unfold Server.recoverNodes
    cases ((Server.new name st).recoverServerDB.recoverQueues env).store.nodes with
    | none => exact queued
    | some doc => exact { queued with }
  exact List.foldlRecOn _ _ (List.foldlRecOn _ _ noded fun _ kept _ _ => kept.recoverJob)
    fun _ kept _ _ => kept.restoreJob

variable {s : Server} {next : Int}

/-- A shutdown writes the counter and after it only jobs that are in the manager. -/
theorem Server.Numbered.saveState (numbered : s.Numbered next) :
    (s.saveState env).Numbered next ∧ (s.saveState env).store.savedCounter = next := by
  let Saved (t : Server) : Prop := t.Numbered next ∧ t.store.savedCounter = next
  have queue : ∀ t name, Saved t → Saved (t.saveQueue env name) := by
    intro t name kept
    refine ⟨kept.1.saveQueue, ?_⟩
    unfold Server.saveQueue
    split <;> exact kept.2
  have job : ∀ t id, Saved t → Saved ((t.jobMgr.jobs.lookup id).elim t (t.saveJob id)) := by
    intro t id kept
    cases found : t.jobMgr.jobs.lookup id with
    | none => exact kept
    | some j => exact ⟨kept.1.saveJob (kept.1.managed id (Assoc.mem_of_lookup found)), kept.2⟩
  have queued : ∀ names : List String, Saved (names.foldl (·.saveQueue env ·) (s.saveServerDB env)) :=
    fun names => List.foldlRecOn (motive := Saved) names _
      ⟨numbered.saveServerDB, numbered.savedCounter_saveServerDB⟩ fun t kept name _ => queue t name kept
  exact List.foldlRecOn (motive := Saved) _ _ ⟨(queued _).1.saveNodes, (queued _).2⟩
    fun t kept id _ => job t id kept

end Start

/-- `NextJobID` would return an id that neither the manager nor the store holds. -/
def Server.NextIsNew (s : Server) : Prop :=
  s.jobMgr.formatJobID ∉ s.jobMgr.jobs ∧ s.jobMgr.formatJobID ∉ s.store.jobs

theorem Server.Numbered.not_issued {s : Server} (numbered : s.Numbered next) :
    ¬ Issued next s.jobMgr.formatJobID := by
  obtain ⟨n, same⟩ := Int.eq_ofNat_of_zero_le numbered.nonneg
  intro issued
  have below := issued n (seqOf_formatJobID s.jobMgr n (numbered.counter.trans same))
  omega

theorem Server.Numbered.nextIsNew {s : Server} (numbered : s.Numbered next) : s.NextIsNew :=
  ⟨fun member => numbered.not_issued (numbered.managed _ member),
    fun member => numbered.not_issued (numbered.stored _ member)⟩

/-- The counter of the running server is ahead of every id it or its store holds. -/
def Server.Ahead (s : Server) : Prop := ∃ next, s.Numbered next

theorem Server.Ahead.boot (saved : 0 ≤ st.savedCounter)
    (issued : ∀ id ∈ st.jobs, Issued st.savedCounter id) : (Server.boot name st env).Ahead :=
  ⟨_, Server.boot_numbered name st env saved issued⟩

theorem Server.Ahead.new (name : String) (backend : Backend) :
    (Server.new name { backend }).Ahead :=
  ⟨0, rfl, le_rfl, by decide, by simp [Server.new], by simp [Server.new],
    by simp [Server.new, Store.savedCounter]⟩

theorem Server.Ahead.step {s : Server} (ahead : s.Ahead) (env : Env) (step : Step)
    (room : step.HasRoom s) : (s.step env step).Ahead := by
  obtain ⟨next, numbered⟩ := ahead
  rcases (s.step_effect env step).numbered_next numbered room with same | more
  · exact ⟨next, same⟩
  · exact ⟨next + 1, more⟩

theorem Server.Ahead.live {s : Server} (ahead : s.Ahead) (life : Life) (saved : s.CounterSaved life) :
    (s.live life).Ahead := by
  cases life with
  | step env step => exact ahead.step env step saved
  | shutdown env start =>
    obtain ⟨next, numbered⟩ := ahead
    obtain ⟨written, counter⟩ : (s.saveState env).Numbered next ∧ _ := numbered.saveState
    refine .boot (counter ▸ numbered.nonneg) ?_
    rw [counter]
    exact written.stored
  | crash env during left start =>
    obtain ⟨room, leaves, issued⟩ := saved
    refine .boot ?_ fun id member => issued id (AList.mem_keys.mp member)
    unfold Store.savedCounter
    rcases leaves.1 with before | after
    · obtain ⟨_, numbered⟩ := ahead
      exact before ▸ numbered.saved
    · obtain ⟨_, numbered⟩ := ahead.step env during room
      exact after ▸ numbered.saved

/-- In every life of a server from an empty store in which each crash finds the saved
counter ahead of the jobs it leaves, a new id is never one that is in use. -/
theorem next_job_id_new_of_counter_saved (name : String) (backend : Backend) (env : Env)
    (lives : List Life)
    (saved : Along Server.live Server.CounterSaved (Server.boot name { backend } env) lives) :
    (lives.foldl Server.live (Server.boot name { backend } env)).NextIsNew := by
  have first : (Server.boot name { backend } env).Ahead := .boot (by simp [Store.savedCounter]) (by simp)
  obtain ⟨next, numbered⟩ := saved.invariant (fun s life ahead => ahead.live life) first
  exact numbered.nextIsNew

instance (s : Server) : Decidable s.NextIsNew := inferInstanceAs (Decidable (_ ∧ _))

instance (s : Server) (env : Env) (during : Step) (left : Store) :
    Decidable (s.Leaves env during left) := inferInstanceAs (Decidable (_ ∧ _))

instance (s : Server) : (life : Life) → Decidable (s.CounterSaved life)
  | .step _ step => inferInstanceAs (Decidable (step.HasRoom s))
  | .shutdown _ _ => inferInstanceAs (Decidable True)
  | .crash _ _ _ _ => inferInstanceAs (Decidable (_ ∧ _ ∧ _))

def request (r : Request) : Life := .step { now := 1 } (.request r)

/-- A queue is created and a job is submitted and committed. -/
def submission : List Life :=
  [request (.manager (.createQueue "batch" [])), request (.queueJob "alice@host" "batch" []),
    request (.commit "0.server")]

def liveFromEmpty (lives : List Life) : Server :=
  lives.foldl Server.live (Server.boot "server" {} { now := 0 })

/-- The run goes on with a crash between two steps. -/
def thenCrash (lives : List Life) : List Life :=
  lives ++ [.crash { now := 1 } .checkNodes (liveFromEmpty lives).store { now := 3 }]

/-- The counter is written along with the settings of the server. -/
def savedSubmission : List Life := submission ++ [request (.manager (.setServer []))]

theorem Server.Ahead.counterSaved {s : Server} (ahead : s.Ahead) (env start : Env) (attrs : List Attr) :
    let t := s.live (.step env (.request (.manager (.setServer attrs))))
    t.CounterSaved (.crash env .checkNodes t.store start) := by
  obtain ⟨next, numbered⟩ := ahead
  have configured : (s.onConfig (·.mgrSetServer attrs)).Numbered next := { numbered with }
  have written : ((s.onConfig (·.mgrSetServer attrs)).saveServerDB env).store.savedCounter = next :=
    configured.savedCounter_saveServerDB
  refine ⟨trivial, ⟨.inl rfl, fun id member => .inl (AList.mem_keys.mpr member)⟩, ?_⟩
  exact fun id member => written.symm ▸ numbered.stored id (AList.mem_keys.mpr member)

/-- A crash leaves the job and a counter that is ahead of it. -/
theorem next_job_id_new_of_counter_saved_run :
    "0.server" ∈ (liveFromEmpty savedSubmission).store.jobs ∧
      (liveFromEmpty (thenCrash savedSubmission)).NextIsNew := by
  have saved : Along Server.live Server.CounterSaved (Server.boot "server" {} { now := 0 })
      savedSubmission := by decide +kernel
  have first : (Server.boot "server" {} { now := 0 }).Ahead :=
    .boot (by simp [Store.savedCounter]) (by simp)
  have ahead : (liveFromEmpty submission).Ahead :=
    Along.invariant (I := Server.Ahead) (fun _ life ahead => ahead.live life)
      (Along.append.mp saved).1 first
  have state : (liveFromEmpty submission).live (request (.manager (.setServer []))) =
      liveFromEmpty savedSubmission := by
    rw [liveFromEmpty, liveFromEmpty, savedSubmission, List.foldl_append, List.foldl_cons,
      List.foldl_nil]
  have crash := ahead.counterSaved { now := 1 } { now := 3 } []
  rw [request] at state
  rw [state] at crash
  refine ⟨by decide +kernel, next_job_id_new_of_counter_saved "server" .file { now := 0 }
    (thenCrash savedSubmission) ?_⟩
  rw [thenCrash, Along.append]
  exact ⟨saved, crash, trivial⟩

/-- The counter is not saved with the job, so the server that starts after a crash gives
out the id of a job it has just recovered. -/
theorem next_job_id_reused_after_crash :
    (liveFromEmpty submission).NextIsNew ∧ ¬ (liveFromEmpty (thenCrash submission)).NextIsNew := by
  decide +kernel

end OpenTorque.Pbs
