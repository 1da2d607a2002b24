import Mathlib.Computability.RegularExpressions
import Mathlib.Logic.Relation

/-! Programs that acquire and release readers-writer mutexes, any number of them
interleaved. If the relation "acquired while the other is held" has no cycle, neither has
the relation "waits for a mutex held by the other" in any state of any interleaving. -/
namespace OpenTorque.LockOrder
variable {L α : Type}

/-- How a mutex is held: a shared holder excludes only exclusive ones. -/
inductive Mode where
  | shared | exclusive
  deriving DecidableEq, Repr

def Mode.excludes : Mode → Mode → Bool
  | shared, shared => false
  | _, _ => true

inductive Op (L : Type) where
  | acquire (mode : Mode) (mutex : L)
  | release (mode : Mode) (mutex : L)
  deriving DecidableEq, Repr

/-- A program in progress. -/
structure Thread (L : Type) where
  todo : List (Op L)
  held : List (Mode × L)
  deriving DecidableEq, Repr

abbrev Pool (L : Type) := List (Thread L)

namespace Pool
variable {pool : Pool L}

def Requests (pool : Pool L) (i : Nat) (a : Mode × L) : Prop :=
  ∃ t rest, pool[i]? = some t ∧ t.todo = .acquire a.1 a.2 :: rest

theorem Requests.unique {i : Nat} {a b : Mode × L} (first : pool.Requests i a)
    (second : pool.Requests i b) : a = b := by
  obtain ⟨t, rest, here, todo⟩ := first
  obtain ⟨u, rest', here', todo'⟩ := second
  obtain rfl : t = u := Option.some.inj (here.symm.trans here')
  rw [todo, List.cons.injEq, Op.acquire.injEq] at todo'
  exact Prod.ext todo'.1.1 todo'.1.2

end Pool

section Execution
variable [DecidableEq L]

def Thread.blocks (t : Thread L) (mode : Mode) (mutex : L) : Bool :=
  t.held.any fun h => h.2 = mutex && mode.excludes h.1

def Thread.advance (t : Thread L) : Thread L :=
  match t.todo with
  | [] => t
  | .acquire mode mutex :: rest => ⟨rest, (mode, mutex) :: t.held⟩
  | .release mode mutex :: rest => ⟨rest, t.held.erase (mode, mutex)⟩

namespace Pool

def waits (pool : Pool L) (i : Nat) : Bool :=
  match pool[i]?.bind (·.todo.head?) with
  | some (.acquire mode mutex) => pool.any (·.blocks mode mutex)
  | _ => false

def advance (pool : Pool L) (i : Nat) : Pool L :=
  if pool.waits i then pool else pool.modify i Thread.advance

def WaitsFor (pool : Pool L) (i k : Nat) : Prop :=
  ∃ a u, pool.Requests i a ∧ pool[k]? = some u ∧ u.blocks a.1 a.2 = true

/-- A cycle of programs, each waiting for a mutex that the next one holds. -/
def Deadlocked (pool : Pool L) : Prop := ∃ i, Relation.TransGen pool.WaitsFor i i

def SelfWaiting (pool : Pool L) : Prop :=
  ∃ i a t m, pool.Requests i a ∧ pool.waits i = true ∧ pool[i]? = some t ∧ (m, a.2) ∈ t.held

end Pool

end Execution

/-! ### Code with nested sections -/

/-- What a function does with mutexes; conditions and the number of rounds are left open. -/
inductive Code (L : Type) where
  | skip
  | seq (p q : Code L)
  | either (p q : Code L)
  | loop (p : Code L)
  | holding (mode : Mode) (mutex : L) (body : Code L)

namespace Code

instance : Append (Code L) := ⟨seq⟩

def traces : Code L → RegularExpression (Op L)
  | skip => 1
  | seq p q => p.traces * q.traces
  | either p q => p.traces + q.traces
  | loop p => .star p.traces
  | holding mode mutex body =>
    .char (.acquire mode mutex) * (body.traces * .char (.release mode mutex))

def optional (p : Code L) : Code L := either skip p

/-- The code of one of the elements, or nothing. -/
def any (xs : List α) (code : α → Code L) : Code L := xs.foldr (fun x => either (code x)) skip

def each (xs : List α) (code : α → Code L) : Code L := loop (any xs code)

def reading (mutex : L) (body : Code L) : Code L := holding .shared mutex body

def writing (mutex : L) (body : Code L) : Code L := holding .exclusive mutex body

/-- The pairs of a mutex that is held and one that is acquired meanwhile. -/
def nests : List (Mode × L) → Code L → List ((Mode × L) × (Mode × L))
  | _, skip => []
  | held, seq p q => p.nests held ++ q.nests held
  | held, either p q => p.nests held ++ q.nests held
  | held, loop p => p.nests held
  | held, holding mode mutex body =>
    held.map (·, (mode, mutex)) ++ body.nests ((mode, mutex) :: held)

variable {held : List (Mode × L)} {p q : Code L}

@[simp] theorem nests_skip : (skip : Code L).nests held = [] := rfl

@[simp] theorem nests_append : (p ++ q).nests held = p.nests held ++ q.nests held := rfl

@[simp] theorem nests_either : (either p q).nests held = p.nests held ++ q.nests held := rfl

@[simp] theorem nests_loop : (loop p).nests held = p.nests held := rfl

@[simp] theorem nests_optional : (optional p).nests held = p.nests held := rfl

@[simp] theorem nests_reading {l : L} : (reading l p).nests held =
    held.map (·, (.shared, l)) ++ p.nests ((.shared, l) :: held) := rfl

@[simp] theorem nests_writing {l : L} : (writing l p).nests held =
    held.map (·, (.exclusive, l)) ++ p.nests ((.exclusive, l) :: held) := rfl

@[simp] theorem nests_any {xs : List α} {code : α → Code L} :
    (any xs code).nests held = xs.flatMap fun x => (code x).nests held := by
  induction xs with
  | nil => rfl
  | cons x xs ih => rw [List.flatMap_cons, ← ih]; rfl

@[simp] theorem nests_each {xs : List α} {code : α → Code L} :
    (each xs code).nests held = xs.flatMap fun x => (code x).nests held := nests_any

end Code

/-! ### A lock order -/

section Order
variable [DecidableEq L] {O : Mode × L → Mode × L → Prop}

/-- From the mutexes held on, each acquisition is allowed by `O` for every mutex held. -/
def Follows (O : Mode × L → Mode × L → Prop) : List (Mode × L) → List (Op L) → Prop
  | _, [] => True
  | held, .acquire mode mutex :: rest =>
    (∀ h ∈ held, O h (mode, mutex)) ∧ Follows O ((mode, mutex) :: held) rest
  | held, .release mode mutex :: rest => Follows O (held.erase (mode, mutex)) rest

theorem Code.follows_append {c : Code L} {held : List (Mode × L)} {p rest : List (Op L)}
    (allowed : ∀ x ∈ c.nests held, O x.1 x.2) (trace : p ∈ c.traces.matches')
    (later : Follows O held rest) : Follows O held (p ++ rest) := by
  induction c generalizing held p rest with
  | skip =>
    obtain rfl : p = [] := trace
    exact later
  | seq c d ihc ihd =>
    obtain ⟨u, hu, v, hv, rfl⟩ := Language.mem_mul.mp trace
    rw [List.append_assoc]
    exact ihc (fun x mem => allowed x (List.mem_append_left _ mem)) hu
      (ihd (fun x mem => allowed x (List.mem_append_right _ mem)) hv later)
  | either c d ihc ihd =>
    rcases trace with first | second
    · exact ihc (fun x mem => allowed x (List.mem_append_left _ mem)) first later
    · exact ihd (fun x mem => allowed x (List.mem_append_right _ mem)) second later
  | loop c ih =>
    obtain ⟨rounds, rfl, each⟩ := Language.mem_kstar.mp trace
    clear trace
    -- the rounds all start and end with the same mutexes held
    induction rounds with
    | nil => exact later
    | cons u rounds ihr =>
      rw [List.flatten_cons, List.append_assoc]
      have tail := fun y mem => each y (List.mem_cons_of_mem _ mem)
      exact ih allowed (each u List.mem_cons_self)
        (ihr tail)
  | holding mode mutex body ih =>
    obtain ⟨_, rfl, _, ⟨u, hu, _, rfl, rfl⟩, rfl⟩ := trace
    refine ⟨fun h mem => allowed (h, mode, mutex) ?_, ?_⟩
    · exact List.mem_append_left _ (List.mem_map.mpr ⟨h, mem, rfl⟩)
    · have closed : Follows O ((mode, mutex) :: held) (.release mode mutex :: rest) := by
        rw [Follows, List.erase_cons_head]
        exact later
      simpa using ih (fun x mem => allowed x (List.mem_append_right _ mem)) hu closed

theorem Code.follows {c : Code L} {p : List (Op L)} (allowed : ∀ x ∈ c.nests [], O x.1 x.2)
    (trace : c.traces.rmatch p = true) : Follows O [] p := by
  have matched := (RegularExpression.rmatch_iff_matches' _ _).mp trace
  have whole : Follows O [] (p ++ []) := follows_append allowed matched trivial
  rwa [List.append_nil] at whole

theorem Follows.advance {t : Thread L} (follows : Follows O t.held t.todo) :
    Follows O t.advance.held t.advance.todo := by
  obtain ⟨todo, held⟩ := t
  match todo, follows with
  | [], follows => exact follows
  | .acquire mode mutex :: rest, follows => exact follows.2
  | .release mode mutex :: rest, follows => exact follows

namespace Pool
variable {pool : Pool L}

def Ordered (O : Mode × L → Mode × L → Prop) (pool : Pool L) : Prop :=
  ∀ t ∈ pool, Follows O t.held t.todo

theorem Ordered.advance (ordered : pool.Ordered O) (i : Nat) : (pool.advance i).Ordered O := by
  unfold Pool.advance
  split
  · exact ordered
  · intro t mem
    obtain ⟨k, bound, rfl⟩ := List.getElem_of_mem mem
    rw [List.getElem_modify]
    rw [List.length_modify] at bound
    split
    · exact (ordered _ (List.getElem_mem bound)).advance
    · exact ordered _ (List.getElem_mem bound)

theorem Ordered.start (ordered : pool.Ordered O) {p : List (Op L)} (follows : Follows O [] p) :
    Pool.Ordered O (pool ++ [⟨p, []⟩]) := by
  intro t mem
  rcases List.mem_append.mp mem with old | new
  · exact ordered t old
  · rw [List.mem_singleton.mp new]
    exact follows

/-- A program that waits for the first mutex is blocked by one that acquires the second. -/
def Blocks (O : Mode × L → Mode × L → Prop) (a b : Mode × L) : Prop :=
  ∃ m, a.1.excludes m = true ∧ O (m, a.2) b

theorem Ordered.allows {i : Nat} {t : Thread L} {a h : Mode × L} (ordered : pool.Ordered O)
    (here : pool[i]? = some t) (requests : pool.Requests i a) (held : h ∈ t.held) : O h a := by
  obtain ⟨u, rest, same, todo⟩ := requests
  obtain rfl : t = u := Option.some.inj (here.symm.trans same)
  have follows := ordered t (List.mem_of_getElem? here)
  rw [todo] at follows
  exact follows.1 h held

theorem Ordered.blocks {i k : Nat} {a b : Mode × L} (ordered : pool.Ordered O)
    (waits : pool.WaitsFor i k) (first : pool.Requests i a) (second : pool.Requests k b) :
    Blocks O a b := by
  obtain ⟨a', u, requests, there, blocking⟩ := waits
  obtain rfl := requests.unique first
  obtain ⟨⟨m, l⟩, held, excluded⟩ := List.any_eq_true.mp blocking
  rw [Bool.and_eq_true, decide_eq_true_eq] at excluded
  obtain ⟨rfl, excluded⟩ := excluded
  exact ⟨m, excluded, ordered.allows there second held⟩

theorem Ordered.chain {i k : Nat} {a b : Mode × L} (ordered : pool.Ordered O)
    (path : Relation.TransGen pool.WaitsFor i k) (first : pool.Requests i a)
    (last : pool.Requests k b) : Relation.TransGen (Blocks O) a b := by
  induction path generalizing b with
  | single waits => exact .single (ordered.blocks waits first last)
  | tail path waits ih =>
    obtain ⟨c, _, requests, _, _⟩ := id waits
    exact .tail (ih requests) (ordered.blocks waits requests last)

theorem Ordered.not_deadlocked (ordered : pool.Ordered O)
    (acyclic : ∀ a, ¬ Relation.TransGen (Blocks O) a a) : ¬ pool.Deadlocked := by
  rintro ⟨i, cycle⟩
  obtain ⟨k, ⟨a, _, requests, _, _⟩, _⟩ := Relation.TransGen.head'_iff.mp cycle
  exact acyclic a (ordered.chain cycle requests requests)

theorem Ordered.not_selfWaiting (ordered : pool.Ordered O)
    (distinct : ∀ m a, ¬ O (m, a.2) a) : ¬ pool.SelfWaiting := by
  rintro ⟨i, a, t, m, requests, -, here, held⟩
  exact distinct m a (ordered.allows here requests held)

end Pool

end Order

end OpenTorque.LockOrder
