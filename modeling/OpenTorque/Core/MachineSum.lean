import Mathlib.Algebra.Order.BigOperators.Group.List
import OpenTorque.Core.CountLoop

/-! Sums of machine integers that stand for amounts: when the sum of every selection still
covers the prices of what was selected. -/
namespace OpenTorque

theorem wrap64_wrap64_add (a b : Int) : wrap64 (wrap64 a + b) = wrap64 (a + b) := Int.bmod_add_bmod

/-- A sum that has just grown too large is negative. -/
theorem wrap64_add_neg {a b : Int} (left : a ≤ maxInt) (right : b ≤ maxInt) (large : maxInt < a + b) :
    wrap64 (a + b) < 0 := by
  unfold maxInt at *
  rw [wrap64, Int.bmod_def]
  omega

variable {α : Type} {price offer : α → Int}

theorem sum_map_le_of_sublist {k l : List α} (selected : k.Sublist l) (positive : ∀ x ∈ l, 0 ≤ offer x) :
    (k.map offer).sum ≤ (l.map offer).sum :=
  (selected.map offer).sum_le_sum (by simpa using positive)

theorem sums_covered {k : List α} (positive : ∀ x ∈ k, 0 < price x)
    (covered : ∀ x ∈ k, price x ≤ offer x) (fits : (k.map offer).sum ≤ maxInt) :
    (k.map price).sum ≤ wrap64 (k.map offer).sum := by
  have sums : (k.map price).sum ≤ (k.map offer).sum := List.sum_le_sum covered
  have low : 0 ≤ (k.map price).sum := List.sum_nonneg (by simpa using fun x member => (positive x member).le)
  rwa [wrap64_of_fits (by unfold minInt; omega) fits]

/-- The machine sum of every selection covers its prices exactly if each single offer does and
the whole sum is a machine integer. -/
theorem sums_covered_iff (l : List α) (positive : ∀ x ∈ l, 0 < price x)
    (fits : ∀ x ∈ l, minInt ≤ offer x ∧ offer x ≤ maxInt) :
    (∀ k : List α, k.Sublist l → (k.map price).sum ≤ wrap64 (k.map offer).sum) ↔
      (∀ x ∈ l, price x ≤ offer x) ∧ (l.map offer).sum ≤ maxInt := by
  constructor
  · intro always
    refine ⟨fun x member => ?_, ?_⟩
    · have single := always [x] (List.singleton_sublist.mpr member)
      simpa [wrap64_of_fits (fits x member).1 (fits x member).2] using single
    -- the selections grow from the front: the first sum that is too large is negative
    · induction l using List.reverseRecOn with
      | nil => simp [maxInt]
      | append_singleton l x ih =>
        rw [List.forall_mem_append] at positive fits
        have front := ih positive.1 fits.1 fun k selected =>
          always k (selected.trans (List.sublist_append_left _ _))
        have whole := always _ (List.Sublist.refl _)
        have prices : 0 ≤ (l.map price).sum :=
          List.sum_nonneg (by simpa using fun y member => (positive.1 y member).le)
        have last := positive.2 x List.mem_cons_self
        by_contra large
        simp only [List.map_append, List.sum_append, List.map_singleton, List.sum_singleton,
          not_le] at large whole
        have negative := wrap64_add_neg front (fits.2 x List.mem_cons_self).2 large
        omega
  · rintro ⟨covered, small⟩ k selected
    refine sums_covered (fun x member => positive x (selected.subset member))
      (fun x member => covered x (selected.subset member)) ?_
    exact (sum_map_le_of_sublist selected fun x member =>
      (positive x member).le.trans (covered x member)).trans small

end OpenTorque
