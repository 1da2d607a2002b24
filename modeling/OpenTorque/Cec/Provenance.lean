import OpenTorque.Cec.Fleet

/-! Where the names come from that the controller hands to the provider and to the node
controller. The reports of the scheduler hold every node of the cluster, but a pool keeps
only names that the provider has returned for it, so no other machine is ever touched. -/
namespace OpenTorque.Cec
open Transition

def Call.names : Call → List String
  | .ensure _ _ => []
  | .resume ref | .reclaim _ _ ref _ _ => [ref.vmID]
  | .drainNode name | .deregisterNode name => [name]

/-- The calls of a step, each with the pool on whose behalf it is made. -/
def Controller.callsFor (env : Env) (c : Controller) : Action → List (String × Call)
  | .receive =>
    match c.events with
    | [] => []
    | ev :: rest => (handle env { c with events := rest } ev).2.map (ev.queue, ·)
  | .syncQueuedJobs queue jobIDs => (syncQueuedJobs env c queue jobIDs).2.map (queue, ·)
  | .reclaimIdle =>
    (run (fun pools qname =>
      let turn := pools.onPool qname (reclaimPool env c.nodes qname)
      (turn.1, turn.2.map (qname, ·))) c (c.pools.range (env.order .pools ""))).2
  | _ => []

theorem onPools_tagged (c : Controller) (f : String → Pool → Pool × List Call) (queues : List String) :
    let tagged := run (fun c queue =>
      let turn := c.onPool queue (f queue)
      (turn.1, turn.2.map (queue, ·))) c queues
    tagged.1 = (run (fun c queue => c.onPool queue (f queue)) c queues).1 ∧
      tagged.2.map Prod.snd = (run (fun c queue => c.onPool queue (f queue)) c queues).2 := by
  induction queues generalizing c with
  | nil => exact ⟨rfl, rfl⟩
  | cons queue queues ih =>
    obtain ⟨state, calls⟩ := ih (c.onPool queue (f queue)).1
    refine ⟨state, ?_⟩
    simp only [run_cons, List.map_append, calls, List.map_map]
    simp [Function.comp_def]

theorem Controller.map_callsFor (env : Env) (c : Controller) (a : Action) :
    (c.callsFor env a).map Prod.snd = (c.step env a).2 := by
  cases a with
  | receive =>
    unfold callsFor Controller.step
    dsimp only
    cases c.events with
    | nil => rfl
    | cons ev rest => simp [Function.comp_def]
  | syncQueuedJobs queue jobIDs => simp [callsFor, Controller.step, Function.comp_def]
  | reclaimIdle => exact (onPools_tagged c _ _).2
  | registerNodesUp queue nodes =>
    rw [Controller.step, registerNodesUp, onPool_calls]
    cases c.pools.lookup queue <;> rfl
  | registerNodesIdle queue nodes =>
    rw [Controller.step, registerNodesIdle, onPool_calls]
    cases c.pools.lookup queue <;> rfl
  | _ => rfl

/-! ### One pool -/

/-- Every name that the pool keeps is known, and idle timers run for owned nodes only. -/
structure Pool.Known (known : String → Prop) (p : Pool) : Prop where
  booting : ∀ id ∈ p.provisioning, known id
  stamped : ∀ id ∈ p.provisionedAt, known id
  owned : ∀ id ∈ p.owned, known id
  suspended : ∀ id ∈ p.hibernated, known id
  idle : ∀ id ∈ p.idleSince, id ∈ p.owned

namespace Pool.Known
variable {known more : String → Prop} {p : Pool} {env : Env}

theorem mono (sound : p.Known known) (grows : ∀ id, known id → more id) : p.Known more where
  booting id mem := grows id (sound.booting id mem)
  stamped id mem := grows id (sound.stamped id mem)
  owned id mem := grows id (sound.owned id mem)
  suspended id mem := grows id (sound.suspended id mem)
  idle := sound.idle

theorem create (ev : Event) : (Pool.create ev).Known known := by
  constructor <;> exact fun id mem => absurd mem (AList.notMem_empty id)

section
variable (sound : p.Known known)
include sound

theorem nodeUp (n : String) : (p.nodeUp n).Known known := by
  unfold Pool.nodeUp
  split
  case isFalse => exact sound
  case isTrue here =>
    refine { sound with booting := ?_, owned := ?_, idle := ?_ } <;> intro id mem
    · exact sound.booting id (AList.mem_erase.mp mem).2
    · rcases (AList.mem_insert _).mp mem with rfl | old
      · exact sound.booting _ here
      · exact sound.owned id old
    · exact (AList.mem_insert _).mpr (.inr (sound.idle id mem))

theorem nodesUp (nodes : List String) :
    (nodes.foldl Pool.nodeUp p).Known known := by
  induction nodes generalizing p with
  | nil => exact sound
  | cons n nodes ih => exact ih (sound.nodeUp n)

theorem clearIdle (name : String) : (p.clearIdle name).Known known :=
  { sound with idle := fun id mem => sound.idle id (AList.mem_erase.mp mem).2 }

theorem markIdle {name : String} (owned : name ∈ p.owned) (now : Time)
    (idleNodes : List String) : (p.markIdle now idleNodes name).Known known := by
  unfold Pool.markIdle
  split
  case isFalse => exact sound.clearIdle name
  case isTrue =>
    split
    · exact sound
    · refine { sound with idle := fun id mem => ?_ }
      rcases (AList.mem_insert _).mp mem with rfl | old
      · exact owned
      · exact sound.idle id old

theorem markAll {names : List String} (owned : ∀ n ∈ names, n ∈ p.owned)
    (now : Time) (idleNodes : List String) :
    (names.foldl (Pool.markIdle now idleNodes) p).Known known := by
  induction names generalizing p with
  | nil => exact sound
  | cons name names ih =>
    refine ih (sound.markIdle (owned name List.mem_cons_self) now idleNodes) fun n mem => ?_
    rw [markIdle_owned]
    exact owned n (List.mem_cons_of_mem _ mem)

theorem bind {id : String} (here : known id) (job : String) (at_ : Time) :
    (p.bind id job at_).Known known := by
  refine { sound with booting := ?_, stamped := ?_ } <;> intro other mem <;>
    rcases (AList.mem_insert _).mp mem with rfl | old
  · exact here
  · exact sound.booting other old
  · exact here
  · exact sound.stamped other old

theorem resume {id : String} (asleep : id ∈ p.hibernated) (job : String)
    (now : Time) : (p.resume id job now).Known known := by
  have awake : Pool.Known known { p with hibernated := p.hibernated.erase id } :=
    { sound with suspended := fun other mem => sound.suspended other (AList.mem_erase.mp mem).2 }
  exact { awake.bind (sound.suspended id asleep) job now with }

end

/-- The outcome of a turn whose calls act on known names. -/
def Turn (known : String → Prop) (r : Pool × List Call) : Prop :=
  r.1.Known known ∧ ∀ call ∈ r.2, ∀ name ∈ call.names, known name

theorem destroyProvisioning (sound : p.Known known) (site : ReclaimSite) {id : String}
    (here : known id) : Turn known (destroyProvisioning env site p id) := by
  have called : ∀ call ∈ [Call.reclaim site p ⟨p.provider, id⟩ "deallocate" true],
      ∀ name ∈ call.names, known name := by simpa [Call.names] using here
  unfold Cec.destroyProvisioning
  dsimp only
  split
  · exact ⟨sound, called⟩
  · refine ⟨{ sound with booting := ?_, stamped := ?_ }, called⟩
    · exact fun other mem => sound.booting other (AList.mem_erase.mp mem).2
    · exact fun other mem => sound.stamped other (AList.mem_erase.mp mem).2

theorem forget (sound : p.Known known) (name : String) : (p.forget name).Known known where
  __ := sound
  owned id mem := sound.owned id (AList.mem_erase.mp mem).2
  idle id mem := by
    obtain ⟨other, timed⟩ := AList.mem_erase.mp mem
    exact AList.mem_erase.mpr ⟨other, sound.idle id timed⟩

theorem reclaimNodeLocked (sound : p.Known known) (nodes : Bool) {name : String}
    (here : known name) : Turn known (reclaimNodeLocked env nodes p name) := by
  have tried : (p.attempt name env.now).Known known := { sound with }
  unfold Cec.reclaimNodeLocked
  dsimp only
  split
  · exact ⟨tried.clearIdle name, by simp⟩
  split
  · exact ⟨tried, by simpa [Call.names] using here⟩
  split
  · exact ⟨tried, by simpa [Call.names] using here⟩
  split
  · refine ⟨{ tried.forget name with suspended := fun id mem => ?_ }, by simpa [Call.names] using here⟩
    rcases (AList.mem_insert _).mp mem with rfl | old
    · exact here
    · exact sound.suspended id old
  · exact ⟨tried.forget name, by simpa [Call.names] using here⟩

theorem reclaimCandidate (sound : p.Known known) (nodes : Bool) {name : String}
    (here : known name) : Turn known (reclaimCandidate env nodes p name) := by
  unfold Cec.reclaimCandidate
  split
  · exact sound.reclaimNodeLocked nodes here
  split
  · exact ⟨sound, by simp⟩
  · exact sound.reclaimNodeLocked nodes here

theorem run {f : Pool → String → Pool × List Call} {names : List String}
    (turn : ∀ p, p.Known known → ∀ n ∈ names, Turn known (f p n)) (sound : p.Known known) :
    Turn known (Transition.run f p names) := by
  induction names generalizing p with
  | nil => exact ⟨sound, by simp⟩
  | cons n names ih =>
    obtain ⟨first, called⟩ := turn p sound n List.mem_cons_self
    obtain ⟨last, later⟩ := ih (fun p sound m mem => turn p sound m (List.mem_cons_of_mem _ mem)) first
    exact ⟨last, List.forall_mem_append.mpr ⟨called, later⟩⟩

section
variable (sound : p.Known known)
include sound

theorem reclaimPool (env : Env) (nodes : Bool) (qname : String) :
    Turn known (reclaimPool env nodes qname p) := by
  have stamped := sound.stamped
  have swept : Turn known (sweepProvisioningTimeoutLocked env qname p) := by
    refine run (fun p sound id mem => sound.destroyProvisioning _ ?_) sound
    exact stamped id ((Assoc.mem_range _ _).mp (List.mem_filter.mp mem).1)
  generalize found : sweepProvisioningTimeoutLocked env qname p = r at swept
  have reclaimed : Turn known (reclaimIdleNodes env nodes qname r.1) := by
    unfold reclaimIdleNodes
    split
    · exact ⟨swept.1, by simp⟩
    · refine run (fun p sound name mem => sound.reclaimCandidate nodes ?_) swept.1
      have timed := (Assoc.mem_range _ _).mp (List.mem_filter.mp mem).1
      exact swept.1.owned name (swept.1.idle name timed)
  unfold Cec.reclaimPool
  rw [found]
  exact ⟨reclaimed.1, List.forall_mem_append.mpr ⟨swept.2, reclaimed.2⟩⟩

theorem syncQueuedJobs (env : Env) (queue : String) (jobIDs : List String) :
    Turn known (Transition.run (Cec.destroyProvisioning env .queuedJobs) p
      ((p.provisioning.range (env.order .provisioning queue)).filter (p.orphaned jobIDs))) := by
  have booting := sound.booting
  refine run (fun p sound id mem => sound.destroyProvisioning _ ?_) sound
  exact booting id ((Assoc.mem_range _ _).mp (List.mem_filter.mp mem).1)

theorem resumeHibernated (env : Env) (ev : Event) (needed resumed : Nat) :
    let r := resumeHibernated env ev needed resumed p
    Turn known (r.1, r.2.2) := by
  induction needed generalizing resumed p with
  | zero => exact ⟨sound, by simp [Cec.resumeHibernated]⟩
  | succ needed ih =>
    unfold Cec.resumeHibernated
    split
    case isTrue => exact ⟨sound, by simp⟩
    case isFalse some =>
      have asleep := oldestHibernated_mem (env.order .hibernated p.queue) some
      obtain ⟨last, later⟩ := ih (sound.resume asleep (ev.jobAt resumed) env.now) (resumed + 1)
      refine ⟨last, List.forall_mem_cons.mpr ⟨?_, later⟩⟩
      simpa [Call.names] using sound.suspended _ asleep

theorem bindVMs (env : Env) (ev : Event) {vms : List VM}
    (here : ∀ vm ∈ vms, known vm.id) : (bindVMs env ev vms p).Known known := by
  have bound : ∀ pairs : List (VM × Nat), (∀ pair ∈ pairs, known pair.1.id) →
      ∀ p : Pool, p.Known known →
      (pairs.foldl (fun p vm => p.bind vm.1.id (ev.jobAt vm.2) (env.boundAt vm.2)) p).Known
        known := by
    intro pairs
    induction pairs with
    | nil => exact fun _ p sound => sound
    | cons pair pairs ih =>
      intro all p sound
      exact ih (fun other mem => all other (List.mem_cons_of_mem _ mem)) _
        (sound.bind (all pair List.mem_cons_self) _ _)
  exact bound _ (fun pair mem => here _ (List.fst_mem_of_mem_zipIdx mem)) p sound

theorem provision (env : Env) (ev : Event) (need : Int) :
    let r := provision env ev need p
    r.1.Known (fun id => known id ∨ id ∈ r.2.flatMap Call.issues) ∧
      ∀ call ∈ r.2, call.names = [] := by
  unfold Cec.provision
  dsimp only
  split
  · exact ⟨sound.mono fun _ => .inl, by simp [Call.names]⟩
  case h_2 vms answer =>
    have grown : p.Known fun id => known id ∨ id ∈ vms.map (·.id) := sound.mono fun _ => .inl
    have bound := grown.bindVMs env ev fun vm mem => .inr (List.mem_map_of_mem mem)
    refine ⟨Known.mono { bound with } fun id => ?_, by simp [Call.names]⟩
    simp [Call.issues]

/-- The names that a turn acts on are known before it; what it brings in is known after it. -/
theorem scaleOut (env : Env) (cooldown : Duration) (ev : Event) :
    let r := scaleOut env cooldown ev p
    r.1.Known (fun id => known id ∨ id ∈ r.2.flatMap Call.issues) ∧
      ∀ call ∈ r.2, ∀ name ∈ call.names, known name := by
  unfold Cec.scaleOut
  dsimp only
  split
  · exact ⟨sound.mono fun _ => .inl, by simp⟩
  split
  · exact ⟨sound.mono fun _ => .inl, by simp⟩
  have started : (p.startCooldown cooldown env.now).Known known := { sound with }
  obtain ⟨last, called⟩ := started.resumeHibernated env ev
    (p.need ev).toNat 0
  split
  · exact ⟨last.mono fun _ => .inl, called⟩
  · obtain ⟨bound, silent⟩ := last.provision env ev _
    refine ⟨bound.mono fun id => Or.imp_right fun mem => ?_, ?_⟩
    · rw [List.flatMap_append]
      exact List.mem_append_right _ mem
    · refine List.forall_mem_append.mpr ⟨called, fun call mem name named => ?_⟩
      simp [silent call mem] at named

end

end Pool.Known

/-! ### A run -/

/-- The name has been returned by the provider for the pool. -/
def Ensured (history : List (String × Call)) (queue name : String) : Prop :=
  ∃ call, (queue, call) ∈ history ∧ name ∈ call.issues

def Controller.Known (history : List (String × Call)) (c : Controller) : Prop :=
  ∀ q p, c.pools.lookup q = some p → p.Known (Ensured history q)

section Steps
variable {c : Controller} {history : List (String × Call)} {env : Env} {a : Action}

theorem Ensured.more {q name : String} (ensured : Ensured history q name) (calls : List (String × Call)) :
    Ensured (history ++ calls) q name :=
  let ⟨call, mem, issues⟩ := ensured
  ⟨call, List.mem_append_left _ mem, issues⟩

theorem Controller.Known.ensurePool (sound : c.Known history) (ev : Event) :
    (ensurePool c.pools ev).Known (Ensured history ev.queue) := by
  unfold Cec.ensurePool
  cases found : c.pools.lookup ev.queue with
  | none =>
    have fresh : (Pool.create ev).Known (Ensured history ev.queue) := .create ev
    exact { fresh with }
  | some p => exact { sound _ p found with }

/-- A pool whose turn acts on known names, and all others unchanged. -/
theorem Controller.Known.onPool (sound : c.Known history) (queue : String)
    {f : Pool → Pool × List Call}
    (turn : ∀ p, p.Known (Ensured history queue) → Pool.Known.Turn (Ensured history queue) (f p)) :
    (c.onPool queue f).1.Known history ∧
      ∀ call ∈ (c.onPool queue f).2, ∀ name ∈ call.names, Ensured history queue name := by
  unfold Controller.onPool
  cases found : c.pools.lookup queue with
  | none => exact ⟨sound, by simp⟩
  | some p =>
    obtain ⟨after, called⟩ := turn p (sound queue p found)
    refine ⟨fun q p' here => ?_, called⟩
    rw [put_lookup] at here
    split at here
    case isTrue same =>
      subst same
      cases here
      exact after
    case isFalse => exact sound q p' here

theorem Controller.Known.more (sound : c.Known history) (calls : List (String × Call)) :
    c.Known (history ++ calls) :=
  fun q p found => (sound q p found).mono fun _ ensured => ensured.more calls

theorem Controller.Known.put (sound : c.Known history) {queue : String} {p : Pool}
    (here : p.Known (Ensured history queue)) : (c.put queue p).Known history := by
  intro q p' found
  rw [put_lookup] at found
  split at found
  case isTrue same =>
    subst same
    cases found
    exact here
  case isFalse => exact sound q p' found

/-- The calls act on names that were ensured for their pool before. -/
def Justified (history calls : List (String × Call)) : Prop :=
  ∀ x ∈ calls, ∀ name ∈ x.2.names, Ensured history x.1 name

theorem justified_tag {queue : String} {calls : List Call}
    (called : ∀ call ∈ calls, ∀ name ∈ call.names, Ensured history queue name) :
    Justified history (calls.map (queue, ·)) := by
  intro x mem name named
  obtain ⟨call, made, rfl⟩ := List.mem_map.mp mem
  exact called call made name named

theorem Controller.Known.handle (sound : c.Known history) (env : Env) (ev : Event) :
    let calls := (handle env c ev).2.map (ev.queue, ·)
    (handle env c ev).1.Known (history ++ calls) ∧ Justified history calls := by
  have pool := sound.ensurePool ev
  cases kind : ev.kind <;> simp only [Cec.handle, kind]
  case capacity =>
    obtain ⟨after, called⟩ := pool.scaleOut env c.cooldown
      (coalesceCapacityEvents (Cec.ensurePool c.pools ev).queue ev c.events)
    refine ⟨?_, justified_tag called⟩
    have emptied : Controller.Known history { c with events := [] } := sound
    refine (emptied.more _).put (after.mono ?_)
    rintro id (old | new)
    · exact old.more _
    · obtain ⟨call, mem, issues⟩ := List.mem_flatMap.mp new
      exact ⟨call, List.mem_append_right _ (List.mem_map_of_mem mem), issues⟩
  case nodeDown =>
    have counted : Controller.Known history (handleNodeDown c ev) := sound.put { pool with }
    exact ⟨counted.more _, by simp [Justified]⟩
  all_goals exact ⟨(sound.put pool).more _, by simp [Justified]⟩

/-- A loop over pools, each with a turn of its own. -/
theorem Controller.Known.onPools (sound : c.Known history) {f : String → Pool → Pool × List Call}
    (turn : ∀ q p, p.Known (Ensured history q) → Pool.Known.Turn (Ensured history q) (f q p))
    (queues : List String) :
    let r := run (fun c queue =>
      let turn := c.onPool queue (f queue)
      (turn.1, turn.2.map (queue, ·))) c queues
    r.1.Known history ∧ Justified history r.2 := by
  induction queues generalizing c with
  | nil => exact ⟨sound, by simp [Justified]⟩
  | cons queue queues ih =>
    obtain ⟨after, called⟩ := sound.onPool queue (turn queue)
    obtain ⟨last, later⟩ := ih after
    exact ⟨last, List.forall_mem_append.mpr ⟨justified_tag called, later⟩⟩

theorem Controller.Known.step (sound : c.Known history) (env : Env) (a : Action) :
    (c.step env a).1.Known (history ++ c.callsFor env a) ∧
      Justified history (c.callsFor env a) := by
  cases a with
  | setNodeController => exact ⟨sound.more _, by simp [Justified, callsFor]⟩
  | send ev =>
    refine ⟨?_, by simp [Justified, callsFor]⟩
    unfold Controller.step
    dsimp only
    split <;> exact sound.more _
  | receive =>
    cases inbox : c.events with
    | nil =>
      simp only [Controller.step, callsFor, inbox]
      exact ⟨sound.more _, by simp [Justified]⟩
    | cons ev rest =>
      simp only [Controller.step, callsFor, inbox]
      have taken : Controller.Known history { c with events := rest } := sound
      exact taken.handle env ev
  | registerNodesUp queue nodes =>
    have after : (Cec.registerNodesUp c queue nodes).1.Known history :=
      (sound.onPool queue fun p known => ⟨known.nodesUp nodes, by simp⟩).1
    exact ⟨after.more _, by simp [Justified, callsFor]⟩
  | registerNodesIdle queue idleNodes =>
    have after : (Cec.registerNodesIdle env c queue idleNodes).1.Known history :=
      (sound.onPool queue fun p known =>
        ⟨known.markAll (fun n mem => (Assoc.mem_range _ _).mp mem) env.now idleNodes, by simp⟩).1
    exact ⟨after.more _, by simp [Justified, callsFor]⟩
  | syncQueuedJobs queue jobIDs =>
    have after := sound.onPool queue fun p known => known.syncQueuedJobs env queue jobIDs
    exact ⟨after.1.more _, justified_tag after.2⟩
  | reclaimIdle =>
    have after := sound.onPools (fun q p known => known.reclaimPool env c.nodes q)
      (c.pools.range (env.order .pools ""))
    have same := (onPools_tagged c (reclaimPool env c.nodes) (c.pools.range (env.order .pools ""))).1
    refine ⟨Controller.Known.more ?_ _, after.2⟩
    rw [Controller.step, reclaimIdle, ← same]
    exact after.1

end Steps

/-- The calls of a run, and the controller after it. -/
def trace (c : Controller) (ls : List (Env × Action)) : Controller × List (String × Call) :=
  run (fun c l => ((c.step l.1 l.2).1, c.callsFor l.1 l.2)) c ls

theorem trace_justified {c : Controller} {history : List (String × Call)} (sound : c.Known history)
    {ls : List (Env × Action)} {before after : List (String × Call)} {x : String × Call}
    (split : (trace c ls).2 = before ++ x :: after) :
    ∀ name ∈ x.2.names, Ensured (history ++ before) x.1 name := by
  induction ls generalizing c history before with
  | nil => simp [trace] at split
  | cons l ls ih =>
    obtain ⟨later, justified⟩ := sound.step l.1 l.2
    change c.callsFor l.1 l.2 ++ (trace (c.step l.1 l.2).1 ls).2 = _ at split
    rcases List.append_eq_append_iff.mp split with ⟨rest, rfl, tail⟩ | ⟨rest, inside, tail⟩
    · rw [← List.append_assoc]
      exact ih later tail
    · cases rest with
      | nil =>
        rw [List.append_nil] at inside
        rw [← inside, ← List.append_nil (history ++ _)]
        exact ih later tail.symm
      | cons y rest =>
        obtain ⟨rfl, -⟩ := List.cons.inj tail
        intro name named
        exact (justified x (by simp [inside]) name named).more before

theorem trace_known {c : Controller} {history : List (String × Call)} (sound : c.Known history)
    (ls : List (Env × Action)) : (trace c ls).1.Known (history ++ (trace c ls).2) := by
  induction ls generalizing c history with
  | nil => exact sound.more _
  | cons l ls ih =>
    have later := ih (sound.step l.1 l.2).1
    rwa [List.append_assoc] at later

/-- Whatever is reported, each name that is drained, deregistered, reclaimed or resumed for a
pool was returned earlier by the provider for the same pool, and idle timers run for owned
nodes only. -/
theorem acts_on_ensured_nodes (ls : List (Env × Action)) :
    (∀ before q call after, (trace new ls).2 = before ++ (q, call) :: after →
      ∀ name ∈ call.names, ∃ earlier, (q, earlier) ∈ before ∧ name ∈ earlier.issues) ∧
    ∀ q p, (trace new ls).1.pools.lookup q = some p → ∀ id ∈ p.idleSince, id ∈ p.owned := by
  have initial : new.Known [] := by
    intro q p found
    simp [new] at found
  constructor
  · intro before q call after split
    exact trace_justified initial split
  · intro q p found
    exact (trace_known initial ls q p found).idle

end OpenTorque.Cec
