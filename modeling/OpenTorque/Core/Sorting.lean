import Mathlib.Data.List.Sort
import Mathlib.Order.Defs.LinearOrder

/-! Sorting by a comparator, as Go's `sort` package takes one. -/
namespace OpenTorque.Sorting

variable {α K : Type} {less : α → α → Bool} {l : List α} {a b : α}

/-- What the comparator of a sort has to be: a strict weak order. -/
structure StrictWeak (less : α → α → Bool) : Prop where
  asymm : ∀ a b, less a b = true → less b a = false
  cotrans : ∀ a b c, less a c = true → less a b = true ∨ less b c = true

theorem StrictWeak.of_key [LinearOrder K] (key : α → K) :
    StrictWeak fun a b => decide (key a < key b) where
  asymm a b before := by simpa using le_of_lt (of_decide_eq_true before)
  cotrans a b c before := by
    have before := of_decide_eq_true before
    rcases lt_or_ge (key a) (key b) with first | second
    · exact .inl (decide_eq_true first)
    · exact .inr (decide_eq_true (lt_of_le_of_lt second before))

theorem StrictWeak.flip (weak : StrictWeak less) : StrictWeak fun a b => less b a where
  asymm a b := weak.asymm b a
  cotrans a b c before := (weak.cotrans c b a before).symm

/-- No element stands after one that it precedes. -/
def Ordered (less : α → α → Bool) (l : List α) : Prop := l.Pairwise fun a b => less b a = false

theorem filter_append_of_pairwise {wanted : α → Bool}
    (split : l.Pairwise fun a b => wanted b = true → wanted a = true) :
    l.filter wanted ++ l.filter (!wanted ·) = l := by
  induction l with
  | nil => rfl
  | cons a l ih =>
    obtain ⟨head, tail⟩ := List.pairwise_cons.mp split
    cases kept : wanted a with
    | true => simp [kept, ih tail]
    | false =>
      have others : ∀ b ∈ l, wanted b = false := fun b member => by
        cases other : wanted b with
        | false => rfl
        | true => exact absurd (head b member other) (by simp [kept])
      have none : l.filter wanted = [] := by simpa using others
      have all : l.filter (!wanted ·) = l := by simpa using others
      simp [kept, none, all]

theorem pair_sublist_or (first : a ∈ l) (second : b ∈ l) (other : a ≠ b) :
    [a, b].Sublist l ∨ [b, a].Sublist l := by
  induction l with
  | nil => cases first
  | cons c l ih =>
    rcases List.mem_cons.mp first with rfl | later
    · rcases List.mem_cons.mp second with rfl | later
      · exact absurd rfl other
      · exact .inl (List.Sublist.cons_cons _ (List.singleton_sublist.mpr later))
    · rcases List.mem_cons.mp second with rfl | after
      · exact .inr (List.Sublist.cons_cons _ (List.singleton_sublist.mpr later))
      · exact (ih later after).imp (List.Sublist.cons _) (List.Sublist.cons _)

namespace StrictWeak
variable (weak : StrictWeak less)
include weak

theorem total : Std.Total fun a b => less b a = false :=
  ⟨fun a b => by
    cases before : less b a with
    | false => exact .inl rfl
    | true => exact .inr (weak.asymm b a before)⟩

theorem trans : IsTrans α fun a b => less b a = false :=
  ⟨fun a b c first second => by
    cases before : less c a with
    | false => rfl
    | true =>
      rcases weak.cotrans c b a before with one | two
      · exact absurd one (by simp [second])
      · exact absurd two (by simp [first])⟩

theorem ordered_insertionSort (l : List α) :
    Ordered less (l.insertionSort fun a b => less b a = false) :=
  haveI := weak.total
  haveI := weak.trans
  List.pairwise_insertionSort _ l

/-- The head of a sorted list: the first of the elements that none precedes. -/
theorem head_insertionSort {first : α}
    (found : (l.insertionSort fun a b => less b a = false).head? = some first) :
    ∃ before after, l = before ++ first :: after ∧ (∀ a ∈ before, less first a = true) ∧
      ∀ a ∈ after, less a first = false := by
  induction l generalizing first with
  | nil => simp at found
  | cons a l ih =>
    rw [List.insertionSort_cons] at found
    cases sorted : (l.insertionSort fun a b => less b a = false) with
    | nil =>
      obtain rfl : l = [] := by
        have size := List.length_insertionSort (fun a b => less b a = false) l
        rw [sorted] at size
        exact List.length_eq_zero_iff.mp size.symm
      obtain rfl : a = first := by simpa using found
      exact ⟨[], [], rfl, by simp, by simp⟩
    | cons next rest =>
      obtain ⟨before, after, rfl, strict, kept⟩ := ih (by rw [sorted]; rfl)
      rw [sorted, List.orderedInsert_cons] at found
      split at found
      case isTrue first_ =>
        obtain rfl : a = first := by simpa using found
        refine ⟨[], _, rfl, by simp, fun x member => ?_⟩
        rcases List.mem_append.mp member with earlier | later
        · -- `x` follows `next`, so it cannot precede `a` without `next` doing so
          rcases weak.cotrans next a x (strict x earlier) with here | here
          · exact absurd here (by simp [first_])
          · exact weak.asymm a x here
        · rcases List.mem_cons.mp later with rfl | later
          · exact first_
          · cases before : less x a with
            | false => rfl
            | true =>
              rcases weak.cotrans x next a before with here | here
              · exact absurd here (by simp [kept x later])
              · exact absurd here (by simp [first_])
      case isFalse second =>
        obtain rfl : next = first := by simpa using found
        refine ⟨a :: before, after, rfl, ?_, kept⟩
        rw [List.forall_mem_cons]
        exact ⟨by simpa using second, strict⟩

end StrictWeak

end OpenTorque.Sorting
