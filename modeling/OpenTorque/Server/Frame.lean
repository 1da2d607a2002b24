import OpenTorque.Server.Edits

/-! Parts of the server that a submission leaves alone. A commit writes jobs, documents
and counters in loops over tasks; what does not read those is the same after it. -/
namespace OpenTorque.Pbs

namespace Server
variable {α : Type*} {view : Server → α} {s t : Server} {env : Env} {id given : String} {j : Job}

/-- The view reads neither the jobs nor the store nor the counters of the queues. -/
structure Aside (view : Server → α) : Prop where
  jobs : ∀ s change, view (s.onJobs change) = view s
  store : ∀ s change, view (s.onStore change) = view s
  counts : ∀ s name state, view (s.onQueue name (·.incrJobCount state)) = view s

theorem view_foldl {β : Type} {round : Server → β → Server} (items : List β)
    (keeps : ∀ t a, view (round t a) = view t) : view (items.foldl round s) = view s :=
  List.foldlRecOn (motive := fun t : Server => view t = view s) items _ rfl
    fun t same a _ => (keeps t a).trans same

theorem Aside.path (aside : Aside view) (path : Path env touched False s t) : view t = view s := by
  induction path with
  | refl => rfl
  | tail _ edit same =>
    refine Eq.trans ?_ same
    cases edit with
    | put | state | remove => exact aside.jobs ..
    | add => rw [addTask, aside.store, aside.jobs]
    | unscript | save => exact aside.store ..
    | count => exact aside.counts ..
    | recount _ open_ | forget open_ | release open_ | down open_ => exact open_.elim

theorem Aside.commit (aside : Aside view) : view (s.commit env given id j reply).server = view s := by
  have path : Path env (fun _ => True) False s (s.commit env given id j reply).server :=
    .commit trivial trivial fun _ _ _ _ => trivial
  exact aside.path path

/-- The table of authenticated addresses and the dispatches under way. -/
def books (s : Server) : Assoc String × List Dispatch := (s.authMap, s.dispatches)

theorem books_aside : Aside books := ⟨fun _ _ => rfl, fun _ _ => rfl, fun _ _ _ => rfl⟩

theorem books_path (path : Path env (fun _ => True) True s t) : t.books = s.books := by
  induction path with
  | refl => rfl
  | tail _ edit same =>
    refine Eq.trans ?_ same
    cases edit <;> rfl

theorem books_assignOn (s : Server) (names : List String) (id : String) (slots : Int) :
    (s.assignOn names id slots).books = s.books := view_foldl names fun _ _ => rfl

theorem books_start : (s.start env id j names slots port).books =
    (s.authMap, s.dispatches ++ names.map fun name => { job := id, node := name }) := by
  have assigned := s.books_assignOn names id slots
  simp only [books, Prod.mk.injEq] at assigned
  simp only [books, start, Server.spawn_authMap, Server.spawn_dispatches, onStore_authMap, onStore_dispatches,
    onQueues_authMap, onQueues_dispatches, onJobs_authMap, onJobs_dispatches, assigned]

theorem books_dispatchDone : (s.dispatchDone d session).books = (s.endDispatch d).books := by
  rw [dispatchDone]
  split <;> rfl

theorem books_dispatchFailed : (s.dispatchFailed env d).books = (s.endDispatch d).books := by
  rw [dispatchFailed, undoJobDispatch]
  split
  · rfl
  · simp only
    split <;> rfl

end Server

/-- What a step does to the table of authenticated addresses and to the dispatches under
way. -/
inductive Books (s : Server) (env : Env) : Step → Server → Prop where
  | same (books : t.books = s.books) : Books s env step t
  | authenticated (books : t.books = (s.authMap.insert remote user, s.dispatches)) :
      Books s env (.authenticate remote user) t
  | started {given dest key : String} {j : Job} {names : List String} (found : s.getJob env given = some (key, j))
      (ready : j.state = .queued ∨ j.state = .provisioning)
      (single : j.nodeRequest.1 ≤ 1 → names.length = 1)
      (books : t.books =
        (s.authMap, s.dispatches ++ names.map fun name => { job := key, node := name }))
      (running : (t.jobMgr.jobs.lookup key).any (·.state = .running)) :
      Books s env (.request (.runJob given dest)) t
  | detached (books : t.books = (s.detach name).books) : Books s env (.request (.manager command)) t
  | dispatched (books : t.books = (s.endDispatch d).books) : Books s env (.dispatchDone d session) t
  | undone (books : t.books = (s.endDispatch d).books) : Books s env (.dispatchFailed d) t

theorem Server.books_manage {s t : Server} (done : s.manage env command = some t) :
    Books s env (.request (.manager command)) t := by
  cases command with
  | createQueue | setQueue | unsetQueue =>
    simp only [Server.manage, Option.ite_none_left_eq_some, Option.ite_none_right_eq_some] at done
    obtain ⟨-, ⟨⟩⟩ := done
    rw [saveQueue]
    split <;> exact .same rfl
  | deleteQueue | setNode =>
    simp only [Server.manage, Option.ite_none_right_eq_some] at done
    obtain ⟨-, ⟨⟩⟩ := done
    exact .same rfl
  | deleteNode name =>
    simp only [Server.manage, Option.ite_none_right_eq_some] at done
    obtain ⟨-, ⟨⟩⟩ := done
    exact .detached rfl
  | createNode | setServer | unsetServer =>
    cases done
    exact .same rfl
  | unsupported => cases done

open Server in
theorem Effect.books {step : Step} {s t : Server} (effect : Effect s env step t) :
    Books s env step t := by
  cases effect with
  | authenticated => exact .authenticated rfl
  | scriptCommitted | committed => exact .same books_aside.commit
  | deleted => exact .same (books_path (.delete trivial))
  | ended found => exact .same (books_path (.finish trivial (mem_of_getJob found)))
  | started found ready =>
    exact .started found ready (fun _ => rfl) books_start (by simp [start])
  | startedMulti found ready _ _ _ several =>
    exact .started found ready (fun single => absurd several (not_lt.mpr single)) books_start
      (by simp [start])
  | managed done => exact books_manage done
  | heard =>
    refine .same ?_
    simp only [handleISMessage]
    split
    · rfl
    · rw [tryAutoRegisterNode]
      split <;> rfl
  | dispatched => exact .dispatched books_dispatchDone
  | undone => exact .undone books_dispatchFailed
  | nodesChecked => exact .same (books_path (.foldl _ fun _ _ _ => .checkNode fun _ => trivial))
  | promoted => exact .same (books_path (.foldl _ fun _ _ _ => .promote trivial))
  | cleaned => exact .same (books_path (.foldl _ fun _ _ _ => .purge trivial))
  | reconciled => exact .same (books_path (.foldl _ fun _ _ _ => .reconcile trivial))
  | _ => exact .same rfl

/-- Only an authentication writes to the table of authenticated addresses. -/
theorem Books.authMap_eq {step : Step} {s t : Server} (books : Books s env step t)
    (other : ∀ remote user, step ≠ .authenticate remote user) : t.authMap = s.authMap := by
  cases books with
  | authenticated => exact absurd rfl (other _ _)
  | same books | started _ _ _ books | detached books | dispatched books | undone books =>
    exact congrArg Prod.fst books

end OpenTorque.Pbs
