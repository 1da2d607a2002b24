import OpenTorque.Server.Operation
import OpenTorque.Server.QueueDocument

/-! Queues across a crash. Every request that changes a queue writes its document, so the
store is never behind the manager; but a deleted queue is removed as a file, whatever the
store is, and the document does not hold everything. -/
namespace OpenTorque.Pbs
open Text (OneLine)

namespace Queue
variable {q : Queue}

theorem normalise_legible (f : QueueText) {value : String} (line : OneLine value) :
    OneLine (f.normalise value) ∧ recoveredText f (f.normalise value) = f.normalise value := by
  cases f with
  | naccessPolicy => exact ⟨line.trimSpace.toLower, rfl⟩
  | cloudProvider | cloudReclaim => exact ⟨line.toLower, Text.toLower_toLower value⟩
  | _ => exact ⟨line, rfl⟩

namespace Legible

theorem new : ({} : Queue).Legible where
  number _ := (by decide : minInt ≤ 0 ∧ 0 ≤ maxInt)
  text f := by cases f <;> decide
  list f item member := by cases member
  limit f resc v found := by cases found

section
variable (legible : q.Legible)
include legible

theorem setNumber (f : QueueNumber) (value : String) :
    (q.setNumber f (scanInto (q.number f) value)).Legible :=
  { legible with
    number g := by
      rw [setNumber_number]
      split
      · exact scanInto_fits _ _ (legible.number f)
      · exact legible.number g }

theorem setText (f : QueueText) {value : String} (line : OneLine value) :
    (q.setText f (f.normalise value)).Legible :=
  { legible with
    text g := by
      rw [setText_text]
      split
      case isTrue same => exact same ▸ normalise_legible g line
      case isFalse => exact legible.text g }

theorem setResource (f : QueueLimits) (resc : String) {value : String}
    (line : OneLine value) : (q.setResource f resc value).Legible :=
  { legible with
    limit g name v found := by
      rw [setResource_lookup] at found
      split at found
      · exact Option.some.inj found ▸ line
      · exact legible.limit g name v found }

theorem applyAttr (a : Attr) (line : OneLine a.value) :
    (q.applyAttr a).Legible := by
  unfold Queue.applyAttr
  split
  · exact legible.setNumber _ _
  · exact legible.setText _ line
  · split
    · split <;> exact { legible with }
    · exact { legible with }
    · exact { legible with }
    case h_4 | h_5 | h_6 =>
      split
      · exact legible.setResource _ _ line
      · exact legible
    case h_13 =>
      split
      · exact legible
      · exact { legible with }
    all_goals exact { legible with }

theorem applyList (attrs : List Attr) (f : QueueList) :
    (Queue.applyList attrs q f).Legible := by
  unfold Queue.applyList
  split
  · exact legible
  · exact { legible with
      list g item member := by
        rw [setList_list] at member
        split at member
        · obtain ⟨a, -, inside⟩ := List.mem_flatMap.mp member
          exact item_of_mem_parseList inside
        · exact legible.list g item member }

theorem applyQueueAttrs {attrs : List Attr}
    (lines : ∀ a ∈ attrs, OneLine a.value) : (q.applyQueueAttrs attrs).Legible := by
  have each : (attrs.foldl Queue.applyAttr q).Legible :=
    List.foldlRecOn (motive := Legible) attrs _ legible
      fun x holds a member => holds.applyAttr a (lines a member)
  exact List.foldlRecOn (motive := Legible) _ _ each fun x holds f _ => holds.applyList attrs f

end

end Legible
end Queue

namespace Server

namespace MgrCommand

/-- The values that a request gives to a queue have no line breaks. -/
def OneLineValues : MgrCommand → Prop
  | .createQueue _ attrs | .setQueue _ attrs => ∀ a ∈ attrs, OneLine a.value
  | _ => True

instance : (c : MgrCommand) → Decidable c.OneLineValues
  | .createQueue _ attrs | .setQueue _ attrs =>
    inferInstanceAs (Decidable (∀ a ∈ attrs, OneLine a.value))
  | .deleteQueue _ | .unsetQueue _ _ | .createNode _ _ | .deleteNode _ | .setNode _ _
  | .setServer _ | .unsetServer _ | .unsupported => inferInstanceAs (Decidable True)

def creates : MgrCommand → List String
  | .createQueue name _ => [name]
  | _ => []

end MgrCommand

def managed (s : Server) (run : List (Env × MgrCommand)) : Server :=
  run.foldl (fun s (env, command) => (s.handleManager env command).server) s

/-- Queues of those names can be saved one by one: each is the name of a file, and none that of
the file written beside another. A database takes any names. -/
def Storable (b : Backend) (names : List String) : Prop :=
  b = .file → ∀ name ∈ names, Store.fileName name = true ∧ name ++ ".new" ∉ names

instance (b : Backend) (names : List String) : Decidable (Storable b names) :=
  inferInstanceAs (Decidable (_ → _))

/-- The store holds the document of every queue and nothing else, except that a database
keeps those of deleted queues; `ever` lists the queues that have been created, all of them
among `names`. -/
structure Synced (b : Backend) (names ever : List String) (s : Server) : Prop where
  backend : s.store.backend = b
  among : ∀ name ∈ ever, name ∈ names
  created : ∀ name ∈ s.queueMgr, name ∈ ever
  legible : ∀ name q, s.queueMgr.lookup name = some q → q.Legible
  document : ∀ name q, s.queueMgr.lookup name = some q →
    ∃ order, s.store.queues.lookup name = some (q.serialize order)
  stored : ∀ name, name ∈ s.store.queues ↔ name ∈ s.queueMgr ∨ b = .postgres ∧ name ∈ ever

namespace Synced
variable {s t : Server} {b : Backend} {names ever : List String} {env : Env} {name : String} {q : Queue}

theorem initial (server : String) : Synced b names [] (Server.new server { backend := b }) where
  backend := rfl
  among name known := by cases known
  created name known := absurd known (AList.notMem_empty name)
  legible name q found := by cases found
  document name q found := by cases found
  stored name := by simp [Server.new]

section
variable (synced : Synced b names ever s)
include synced

theorem same (queues : t.queueMgr = s.queueMgr)
    (documents : t.store.queues = s.store.queues) (backend : t.store.backend = s.store.backend) :
    Synced b names ever t where
  backend := backend.trans synced.backend
  among := synced.among
  created := queues ▸ synced.created
  legible := queues ▸ synced.legible
  document := by rw [queues, documents]; exact synced.document
  stored := by rw [queues, documents]; exact synced.stored

/-- No other document is in the way of one that can be saved. -/
theorem saved (storable : Storable b names) (listed : name ∈ names) (doc x : String) :
    (s.store.saveQueue name doc).queues.lookup x =
      if x = name then some doc else s.store.queues.lookup x := by
  rw [Store.saveQueue, synced.backend]
  cases kind : b with
  | postgres => exact Assoc.lookup_insert_ite ..
  | file =>
    dsimp only
    rw [if_pos (storable kind name listed).1, Assoc.lookup_insert_ite, Assoc.lookup_erase_ite]
    refine if_congr Iff.rfl rfl (ite_eq_right_iff.mpr fun beside => ?_)
    have absent : x ∉ s.store.queues := by
      intro stored
      rcases (synced.stored x).mp stored with known | ⟨database, -⟩
      · have other := synced.among x (synced.created x known)
        exact (storable kind name listed).2 (beside ▸ other)
      · cases kind.symm.trans database
    exact (AList.lookup_eq_none.mpr absent).symm

/-- A queue is put into the manager and its document into the store. -/
theorem put (storable : Storable b names) (legible : q.Legible) (order : RangeOrder)
    (queues : t.queueMgr = s.queueMgr.insert name q)
    (store : t.store = s.store.saveQueue name (q.serialize order)) (allowed : name ∈ names)
    (listed : name ∈ more) (kept : ever ⊆ more) (others : ∀ x ∈ more, x ∈ ever ∨ x = name) :
    Synced b names more t where
  backend := by rw [store]; exact synced.backend
  among x past := (others x past).elim (synced.among x) fun here => here ▸ allowed
  created x known := by
    rw [queues, AList.mem_insert] at known
    rcases known with rfl | old
    · exact listed
    · exact kept (synced.created x old)
  legible x r found := by
    rw [queues, Assoc.lookup_insert_ite] at found
    split at found
    · exact Option.some.inj found ▸ legible
    · exact synced.legible x r found
  document x r found := by
    rw [queues, Assoc.lookup_insert_ite] at found
    rw [store, synced.saved storable allowed]
    split at found
    case isTrue same => exact ⟨order, by rw [if_pos same, Option.some.inj found]⟩
    case isFalse other =>
      rw [if_neg other]
      exact synced.document x r found
  stored x := by
    have now : x ∈ t.store.queues ↔ x = name ∨ x ∈ s.store.queues := by
      rw [← AList.lookup_isSome, store, synced.saved storable allowed]
      split <;> simp [*, AList.lookup_isSome]
    rw [queues, now, AList.mem_insert, synced.stored]
    constructor
    · rintro (here | old | ⟨database, past⟩)
      · exact .inl (.inl here)
      · exact .inl (.inr old)
      · exact .inr ⟨database, kept past⟩
    · rintro ((here | old) | ⟨database, past⟩)
      · exact .inl here
      · exact .inr (.inl old)
      · rcases others x past with past | here
        · exact .inr (.inr ⟨database, past⟩)
        · exact .inl here

/-- The queues that have been created are known to be among more names, if the others are
in the manager. -/
theorem widen (known : ∀ x ∈ more, x ∈ s.queueMgr) :
    Synced b names (ever ++ more) s where
  backend := synced.backend
  among x past := by
    rcases List.mem_append.mp past with past | new
    · exact synced.among x past
    · exact synced.among x (synced.created x (known x new))
  created x here := List.mem_append_left _ (synced.created x here)
  legible := synced.legible
  document := synced.document
  stored x := by
    rw [synced.stored, List.mem_append]
    constructor
    · rintro (here | ⟨database, past⟩)
      · exact .inl here
      · exact .inr ⟨database, .inl past⟩
    · rintro (here | ⟨database, past | new⟩)
      · exact .inl here
      · exact .inr ⟨database, past⟩
      · exact .inl (known x new)

theorem change (storable : Storable b names) (found : s.queueMgr.lookup name = some q)
    {change : Queue → Queue} (legible : (change q).Legible) :
    Synced b names ever ((s.onQueue name change).saveQueue env name) := by
  have queues : (s.onQueue name change).queueMgr = s.queueMgr.insert name (change q) := by
    simp [QueueManager.onQueue, found]
  have saved : (s.onQueue name change).saveQueue env name =
      (s.onQueue name change).onStore (·.saveQueue name ((change q).serialize (env.order .resources))) := by
    rw [saveQueue, queues, AList.lookup_insert]
  have past := synced.created name (Assoc.mem_of_lookup found)
  rw [saved]
  exact synced.put storable legible (env.order .resources) queues rfl (synced.among name past) past
    (List.Subset.refl _) fun x old => .inl old

theorem create (storable : Storable b names) (legible : q.Legible) (allowed : name ∈ names) :
    Synced b names (ever ++ [name]) ((s.onQueues (·.insert name q)).saveQueue env name) := by
  have saved : (s.onQueues (·.insert name q)).saveQueue env name = (s.onQueues (·.insert name q)).onStore
      (·.saveQueue name (q.serialize (env.order .resources))) := by
    rw [saveQueue, onQueues_queueMgr, AList.lookup_insert]
  rw [saved]
  refine synced.put storable legible (env.order .resources) rfl rfl allowed (by simp) (by simp)
    fun x listed => ?_
  simpa using listed

theorem delete (known : name ∈ s.queueMgr) :
    Synced b names ever ((s.onQueues (·.erase name)).onStore (·.removeQueueFile name)) where
  backend := synced.backend
  among := synced.among
  created x here := synced.created x (AList.mem_erase.mp here).2
  legible x q found := by
    rw [onStore_queueMgr, onQueues_queueMgr, Assoc.lookup_erase_ite] at found
    split at found
    · cases found
    · exact synced.legible x q found
  document x q found := by
    rw [onStore_queueMgr, onQueues_queueMgr, Assoc.lookup_erase_ite] at found
    split at found
    · cases found
    case isFalse other =>
      obtain ⟨order, document⟩ := synced.document x q found
      refine ⟨order, ?_⟩
      simp only [onStore_store, onQueues_store, Store.removeQueueFile]
      split
      · rwa [Assoc.lookup_erase_ite, if_neg other]
      · exact document
  stored x := by
    have past := synced.created name known
    have before := synced.stored x
    simp only [onStore_store, onQueues_store, Store.removeQueueFile, onStore_queueMgr,
      onQueues_queueMgr, synced.backend, AList.mem_erase]
    cases b with
    | file => simp_all
    | postgres =>
      by_cases same : x = name
      · subst same
        simp_all
      · simp_all

theorem step (storable : Storable b names) (env : Env) {command : MgrCommand}
    (lines : command.OneLineValues) (allowed : command.creates ⊆ names) :
    Synced b names (ever ++ command.creates) (s.handleManager env command).server := by
  have unchanged : ∀ t : Server, t.queueMgr = s.queueMgr → t.store.queues = s.store.queues →
      t.store.backend = s.store.backend → Synced b names (ever ++ []) t := by
    intro t queues documents backend
    rw [List.append_nil]
    exact synced.same queues documents backend
  rw [handleManager]
  cases command with
  | createQueue name attrs =>
    rw [manage]
    split
    case h_1 refused =>
      refine synced.widen fun x listed => ?_
      rw [List.mem_singleton.mp listed]
      by_contra unknown
      simp [unknown] at refused
    case h_2 t accepted =>
      obtain ⟨-, same⟩ := Option.ite_none_left_eq_some.mp accepted
      rw [← Option.some.inj same]
      exact synced.create storable (Queue.Legible.new.applyQueueAttrs lines)
        (allowed List.mem_cons_self)
  | deleteQueue name =>
    rw [manage]
    split
    case h_1 => exact unchanged _ rfl rfl rfl
    case h_2 t accepted =>
      obtain ⟨known, same⟩ := Option.ite_none_right_eq_some.mp accepted
      rw [← Option.some.inj same]
      show Synced b names (ever ++ []) _
      rw [List.append_nil]
      exact synced.delete known
  | setQueue name attrs =>
    rw [manage]
    split
    case h_1 => exact unchanged _ rfl rfl rfl
    case h_2 t accepted =>
      obtain ⟨known, same⟩ := Option.ite_none_right_eq_some.mp accepted
      rw [← Option.some.inj same]
      obtain ⟨q, found⟩ := Assoc.exists_lookup known
      show Synced b names (ever ++ []) _
      rw [List.append_nil]
      exact synced.change storable found ((synced.legible name q found).applyQueueAttrs lines)
  | unsetQueue name attrs =>
    rw [manage]
    split
    case h_1 => exact unchanged _ rfl rfl rfl
    case h_2 t accepted =>
      obtain ⟨known, same⟩ := Option.ite_none_right_eq_some.mp accepted
      rw [← Option.some.inj same]
      obtain ⟨q, found⟩ := Assoc.exists_lookup known
      show Synced b names (ever ++ []) _
      rw [List.append_nil]
      exact synced.change storable found { synced.legible name q found with }
  | deleteNode name | setNode name attrs =>
    rw [manage]
    split
    case h_1 => exact unchanged _ rfl rfl rfl
    case h_2 t accepted =>
      obtain ⟨-, same⟩ := Option.ite_none_right_eq_some.mp accepted
      rw [← Option.some.inj same]
      exact unchanged _ rfl rfl rfl
  | createNode name attrs | setServer attrs | unsetServer attrs | unsupported =>
    exact unchanged _ rfl rfl rfl

theorem run (storable : Storable b names) {requests : List (Env × MgrCommand)}
    (lines : ∀ r ∈ requests, r.2.OneLineValues) (allowed : ∀ r ∈ requests, r.2.creates ⊆ names) :
    Synced b names (ever ++ requests.flatMap (·.2.creates)) (s.managed requests) := by
  induction requests generalizing s ever with
  | nil =>
    rw [List.flatMap_nil, List.append_nil]
    exact synced
  | cons r requests ih =>
    rw [List.forall_mem_cons] at lines allowed
    rw [List.flatMap_cons, ← List.append_assoc]
    exact ih (synced.step storable r.1 lines.1 allowed.1) lines.2 allowed.2

end

end Synced

theorem recoverQueues_lookup (server : String) (st : Store) (env : Env) (name : String) :
    ((Server.new server st).recoverQueues env).queueMgr.lookup name =
      (st.queues.lookup name).map Queue.deserialize := by
  have loop : ∀ (names : List String) (t : Server), t.store = st →
      (names.foldl recoverQueue t).queueMgr.lookup name =
        if name ∈ names ∧ name ∈ st.queues then (st.queues.lookup name).map Queue.deserialize
        else t.queueMgr.lookup name := by
    intro names
    induction names with
    | nil => simp
    | cons x names ih =>
      intro t same
      have step : (t.recoverQueue x).store = st ∧ (t.recoverQueue x).queueMgr.lookup name =
          if name = x ∧ name ∈ st.queues then (st.queues.lookup name).map Queue.deserialize
          else t.queueMgr.lookup name := by
        rw [recoverQueue, same]
        cases found : st.queues.lookup x with
        | none =>
          refine ⟨same, (if_neg ?_).symm⟩
          rintro ⟨rfl, known⟩
          exact AList.lookup_eq_none.mp found known
        | some doc =>
          refine ⟨same, ?_⟩
          rw [onQueues_queueMgr, Assoc.lookup_insert_ite]
          by_cases here : name = x
          · subst here
            simp [found, Assoc.mem_of_lookup found]
          · simp [here]
      rw [List.foldl_cons, ih _ step.1, step.2]
      by_cases here : name = x
      · subst here
        by_cases known : name ∈ st.queues <;> simp [known]
      · simp [here]
  rw [recoverQueues, loop _ _ rfl]
  by_cases known : name ∈ st.queues
  · rw [if_pos ⟨(Assoc.mem_range _ _).mpr known, known⟩]
  · rw [if_neg fun both => known both.2, AList.lookup_eq_none.mpr known]
    rfl

/-- Two tables hold the same queues with the same attributes. -/
structure SameQueues (m n : QueueManager) : Prop where
  names : ∀ name, name ∈ m ↔ name ∈ n
  policy : ∀ name x q, m.lookup name = some x → n.lookup name = some q → x.SamePolicy q

theorem new_durable : ({} : Queue).Durable where
  number f _ := le_refl 0
  text f := (by decide : Text.trimRight "" = "")
  list f := List.nodup_nil
  hosts _ := ⟨rfl, rfl⟩
  limit f resc v found := by cases found
  untagged := by
    rintro (⟨f, shown, -⟩ | ⟨f, shown, -⟩ | ⟨f, resc, v, found, -⟩)
    · exact shown.1 rfl
    · exact shown.1 rfl
    · cases found

/-- A queue for one host of a list, with a limit. -/
def guarded : Queue := ({} : Queue).applyQueueAttrs
  [{ name := "acl_hosts", value := "login" }, { name := "naccesspolicy", value := "Exclusive" },
    { name := "hostlist", value := "n1,n2" },
    { name := "resources_max", resc := "ncpus", hasResc := true, value := "4" }]

theorem guarded_durable : guarded.Durable where
  number f _ := by cases f <;> decide
  text f := by cases f <;> decide
  list f := by cases f <;> decide
  hosts := by decide
  limit f := by cases f <;> decide
  untagged := by
    have limits : ∀ f resc v, (guarded.resource f).lookup resc = some v →
        ¬ (Text.contains resc Queue.tag = true ∨ Text.contains v Queue.tag = true) := by
      intro f
      cases f <;> decide
    rintro (⟨f, -, inside⟩ | ⟨f, -, item, listed, inside⟩ | ⟨f, resc, v, found, inside⟩)
    · revert inside
      cases f <;> decide
    · revert item
      cases f <;> decide
    · exact limits f resc v found inside

/-- The queue is created next to one that is deleted and created again. -/
def guardedRun : List (Env × MgrCommand) :=
  [({ now := 0 }, .createQueue "batch"
      [{ name := "acl_hosts", value := "login" }, { name := "naccesspolicy", value := "Exclusive" },
        { name := "hostlist", value := "n1,n2" },
        { name := "resources_max", resc := "ncpus", hasResc := true, value := "4" }]),
    ({ now := 1 }, .createQueue "other" []), ({ now := 2 }, .deleteQueue "other"),
    ({ now := 3 }, .createQueue "other" [])]

def afterRun (b : Backend) (requests : List (Env × MgrCommand)) : Server :=
  (Server.new "server" { backend := b }).managed requests

def afterCrash (b : Backend) (requests : List (Env × MgrCommand)) : Server :=
  (Server.new "server" (afterRun b requests).store).recoverQueues { now := 9 }

def exclusiveRun : List (Env × MgrCommand) :=
  [({ now := 0 }, .createQueue "batch" [{ name := "naccesspolicy", value := "exclusive" }])]

def deletedRun : List (Env × MgrCommand) :=
  [({ now := 0 }, .createQueue "batch" []), ({ now := 1 }, .deleteQueue "batch")]

end Server

end OpenTorque.Pbs
