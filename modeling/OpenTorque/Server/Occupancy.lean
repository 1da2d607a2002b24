import OpenTorque.Server.Frame
import OpenTorque.Server.Assignment

/-! Which steps can give a node a job: only a `RunJob` request, and only on the nodes it
starts the job on. Every other step leaves each node with some of the jobs it had. -/
namespace OpenTorque.Pbs

namespace Server
variable {s t u : Server} {env : Env} {name id given : String} {j : Job}

def Fewer (s t : Server) : Prop := ∀ name, t.assigned name ⊆ s.assigned name

theorem nodeMgr_aside : Aside nodeMgr := ⟨fun _ _ => rfl, fun _ _ => rfl, fun _ _ _ => rfl⟩

namespace Fewer

theorem refl (s : Server) : s.Fewer s := fun _ => List.Subset.refl _

theorem trans (first : s.Fewer t) (second : t.Fewer u) : s.Fewer u :=
  fun name => List.Subset.trans (second name) (first name)

theorem of_nodes (same : t.nodeMgr = s.nodeMgr) : s.Fewer t := by
  intro name
  rw [assigned, same]
  exact List.Subset.refl _

theorem of_assigned (same : t.assigned = s.assigned) : s.Fewer t := by
  intro name
  rw [same]
  exact List.Subset.refl _

theorem releaseJob (s : Server) (name id : String) (slots : Int) :
    s.Fewer (s.onNode name (·.releaseJob id slots)) := by
  intro x
  rw [assigned_release]
  dsimp only
  split
  · exact List.erase_subset
  · exact List.Subset.refl _

theorem addNode (s : Server) (name : String) (np : Int) : s.Fewer (s.onNodes (·.addNode name np)) := by
  intro x
  simp only [assigned, onNodes_nodeMgr, NodeManager.addNode]
  split
  · exact List.Subset.refl _
  · rw [Assoc.lookup_insert_ite]
    split
    · exact List.nil_subset _
    · exact List.Subset.refl _

theorem erase (s : Server) (name : String) : s.Fewer (s.onNodes (·.erase name)) := by
  intro x
  simp only [assigned, onNodes_nodeMgr, Assoc.lookup_erase_ite]
  split
  · exact List.nil_subset _
  · exact List.Subset.refl _

theorem onNode (kept : ∀ n, (change n).assignedJobs = n.assignedJobs) :
    s.Fewer (s.onNode name change) := of_assigned (assigned_onNode_kept kept)

theorem path (path : Path env (fun _ => True) True s t) : s.Fewer t := by
  induction path with
  | refl => exact refl s
  | tail _ edit fewer =>
    refine fewer.trans ?_
    cases edit with
    | release => exact releaseJob _ _ _ _
    | down => exact onNode fun _ => rfl
    | _ => exact refl _

theorem undoJobDispatch (env : Env) (d : Dispatch) : s.Fewer (s.undoJobDispatch env d) := by
  rw [Server.undoJobDispatch]
  split
  · exact refl s
  case h_2 j _ =>
    simp only
    split
    · exact refl s
    · exact releaseJob s d.node d.job j.requestedCPUs

theorem handleISMessage (env : Env) (msg : StatusMessage) : s.Fewer (s.handleISMessage env msg) := by
  have heard : ∀ t : Server, t.Fewer (t.onNode msg.hostname (·.receive env.now msg)) :=
    fun _ => onNode fun _ => by simp
  simp only [Server.handleISMessage]
  split
  · exact heard s
  · rw [tryAutoRegisterNode]
    split
    · have registered (np : Int) : s.Fewer ((s.onNodes (·.addNode msg.hostname np)).onNode msg.hostname
          ({ · with dynamic := true })) := (addNode s msg.hostname np).trans (onNode fun _ => rfl)
      exact (registered _).trans (heard _)
    · exact heard s

theorem manage (done : s.manage env command = some t) : s.Fewer t := by
  cases command with
  | createQueue | setQueue | unsetQueue =>
    simp only [Server.manage, Option.ite_none_left_eq_some, Option.ite_none_right_eq_some] at done
    obtain ⟨-, ⟨⟩⟩ := done
    refine of_nodes ?_
    rw [saveQueue]
    split <;> rfl
  | deleteQueue =>
    simp only [Server.manage, Option.ite_none_right_eq_some] at done
    obtain ⟨-, ⟨⟩⟩ := done
    exact refl s
  | createNode name attrs =>
    cases done
    exact (addNode s name _).trans (onNode fun _ => by simp)
  | deleteNode name =>
    simp only [Server.manage, Option.ite_none_right_eq_some] at done
    obtain ⟨-, ⟨⟩⟩ := done
    exact erase s name
  | setNode name attrs =>
    simp only [Server.manage, Option.ite_none_right_eq_some] at done
    obtain ⟨-, ⟨⟩⟩ := done
    exact onNode fun _ => by simp
  | setServer | unsetServer =>
    cases done
    exact refl s
  | unsupported => cases done

end Fewer

def runsOn (s : Server) (env : Env) : Step → List String
  | .request (.runJob given dest) =>
    match s.getJob env given with
    | none => []
    | some (_, j) =>
      if j.state = .queued ∨ j.state = .provisioning then
        if 1 < j.nodeRequest.1 then
          s.selectNodes env (Text.before '/' dest) j.nodeRequest.1 j.nodeRequest.2
        else [Text.before '/' dest]
      else []
  | _ => []

theorem assigned_start (apart : name ∉ names) :
    (s.start env id j names slots port).assigned name = s.assigned name := by
  refine List.foldlRecOn (motive := fun t : Server => t.assigned name = s.assigned name) names _ rfl
    fun t same x member => ?_
  rw [assigned_onNode, if_neg fun here : name = x => apart (here ▸ member), same]

end Server

open Server in
/-- A node lists more jobs after a step only if the step starts a job on it. -/
theorem Effect.assigned_subset {step : Step} (effect : Effect s env step t) (apart : name ∉ s.runsOn env step) :
    t.assigned name ⊆ s.assigned name := by
  have fewer : s.Fewer t → t.assigned name ⊆ s.assigned name := fun fewer => fewer name
  cases effect with
  | started found ready _ _ _ single =>
    rw [assigned_start (by simpa [runsOn, found, ready, not_lt.mpr single] using apart)]
    exact List.Subset.refl _
  | startedMulti found ready _ _ _ several =>
    rw [assigned_start (by simpa [runsOn, found, ready, several] using apart)]
    exact List.Subset.refl _
  | scriptCommitted | committed => exact fewer (.of_nodes nodeMgr_aside.commit)
  | deleted => exact fewer (.path (.delete trivial))
  | rerun => exact fewer (.releaseJob s _ _ _)
  | ended found => exact fewer (.path (.finish trivial (mem_of_getJob found)))
  | managed done => exact fewer (.manage done)
  | heard => exact fewer (.handleISMessage env _)
  | dispatched =>
    refine fewer (.of_nodes ?_)
    rw [dispatchDone]
    split <;> rfl
  | @undone d => exact fewer (.undoJobDispatch (s := s.endDispatch d) env d)
  | nodesChecked => exact fewer (.path (.foldl _ fun _ _ _ => .checkNode fun _ => trivial))
  | promoted => exact fewer (.path (.foldl _ fun _ _ _ => .promote trivial))
  | cleaned => exact fewer (.path (.foldl _ fun _ _ _ => .purge trivial))
  | reconciled => exact fewer (.path (.foldl _ fun _ _ _ => .reconcile trivial))
  | _ => exact fewer (.refl s)

end OpenTorque.Pbs
