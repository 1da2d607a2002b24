import Mathlib.Data.List.Perm.Basic
import Mathlib.Logic.Function.Iterate

/-! A counter that goes round a list of sources and takes from one at each visit. -/
namespace OpenTorque.Rotation

section Visits
variable {Q J : Type} (offer : Q → Option J) (advance : Q → Q)

/-- What the first visits take, and the sources after them. -/
def visits : Nat → List Q → List J × List Q
  | 0, qs => ([], qs)
  | m + 1, qs =>
    let (out, rest) := visits m qs
    (out ++ (rest[m % rest.length]?.bind offer).toList, rest.modify (m % rest.length) advance)

@[simp] theorem visits_zero (qs : List Q) : visits offer advance 0 qs = ([], qs) := rfl

theorem visits_succ (m : Nat) (qs : List Q) : visits offer advance (m + 1) qs =
    ((visits offer advance m qs).1 ++
      ((visits offer advance m qs).2[m % (visits offer advance m qs).2.length]?.bind offer).toList,
      (visits offer advance m qs).2.modify (m % (visits offer advance m qs).2.length) advance) := rfl

@[simp] theorem length_visits (m : Nat) (qs : List Q) :
    (visits offer advance m qs).2.length = qs.length := by
  induction m with
  | zero => rfl
  | succ m ih => rw [visits_succ, List.length_modify, ih]

theorem modify_append_cons (f : Q → Q) (front : List Q) (q : Q) (back : List Q) :
    (front ++ q :: back).modify front.length f = front ++ f q :: back := by
  induction front with
  | nil => rfl
  | cons first front ih => simp [ih]

/-- Within a round the visited sources have advanced and the others are untouched. -/
theorem visits_within {start : Nat} {qs row : List Q} {out : List J}
    (aligned : start % qs.length = 0) (here : visits offer advance start qs = (out, row)) {m : Nat}
    (within : m ≤ qs.length) : visits offer advance (start + m) qs =
      (out ++ (row.take m).filterMap offer, (row.take m).map advance ++ row.drop m) := by
  have size : row.length = qs.length := by
    have same := length_visits offer advance start qs
    rwa [here] at same
  induction m with
  | zero => simpa using here
  | succ m ih =>
    have inside : m < row.length := by omega
    have index : (start + m) % qs.length = m := by
      rw [Nat.add_mod, aligned, Nat.zero_add, Nat.mod_mod, Nat.mod_eq_of_lt (by omega)]
    have here := ih (by omega)
    obtain ⟨front, q, back, rfl, rfl⟩ : ∃ front q back, row = front ++ q :: back ∧ front.length = m :=
      ⟨row.take m, row[m], row.drop (m + 1), by simp, by simp; omega⟩
    have before : (front ++ q :: back).take (front.length + 1) = front ++ [q] := by
      simp [List.take_append, List.take_of_length_le]
    have after : (front ++ q :: back).drop (front.length + 1) = back := by simp [List.drop_append]
    have changed := modify_append_cons advance (front.map advance) q back
    rw [List.length_map] at changed
    rw [← Nat.add_assoc, visits_succ, length_visits, index, here, before, after]
    cases offered : offer q <;> simp [changed, offered]

theorem visits_rounds (qs : List Q) (r : Nat) : visits offer advance (qs.length * r) qs =
    ((List.range r).flatMap fun i => (qs.map advance^[i]).filterMap offer, qs.map advance^[r]) := by
  induction r with
  | zero => simp
  | succ r ih =>
    have whole := visits_within offer advance (by simp) ih (Nat.le_refl _)
    have size : (qs.map advance^[r]).length = qs.length := List.length_map _
    rw [← size, List.take_length, List.drop_length, size] at whole
    rw [Nat.mul_succ, whole, List.range_succ, List.flatMap_append, List.flatMap_singleton,
      Function.iterate_succ', List.append_nil, List.map_map]

variable {offer advance} {qs : List Q} {m k i : Nat} {q : Q}

/-- A change that `f` does not see. -/
theorem map_modify_of_fixed {f : Q → β} (fixed : ∀ q ∈ qs[i]?, f (advance q) = f q) :
    (qs.modify i advance).map f = qs.map f := by
  refine List.ext_getElem? fun j => ?_
  rw [List.getElem?_map, List.getElem?_map, List.getElem?_modify]
  by_cases same : i = j
  · subst same
    cases here : qs[i]? with
    | none => rfl
    | some q => simp [fixed q here]
  · simp [same]

theorem modify_of_fixed (fixed : ∀ q ∈ qs[i]?, advance q = q) : qs.modify i advance = qs := by
  simpa using map_modify_of_fixed (f := id) fixed

/-- No visit changes a source that does not advance. -/
theorem visits_fixed (fixed : advance q = q) (here : qs[i]? = some q) (m : Nat) :
    (visits offer advance m qs).2[i]? = some q := by
  induction m with
  | zero => exact here
  | succ m ih =>
    rw [visits_succ, List.getElem?_modify, ih]
    simp [fixed]

theorem visits_of_idle (later : m ≤ k)
    (idle : ∀ q ∈ (visits offer advance m qs).2, offer q = none ∧ advance q = q) :
    visits offer advance k qs = visits offer advance m qs := by
  induction later with
  | refl => rfl
  | @step k _ ih =>
    have here := fun q (found : (visits offer advance m qs).2[
      k % (visits offer advance m qs).2.length]? = some q) => idle q (List.mem_of_getElem? found)
    have silent : (visits offer advance m qs).2[k % (visits offer advance m qs).2.length]?.bind
        offer = none := Option.bind_eq_none_iff.mpr fun q found => (here q found).1
    rw [visits_succ, ih, silent, modify_of_fixed fun q found => (here q found).2]
    simp

end Visits

end OpenTorque.Rotation
