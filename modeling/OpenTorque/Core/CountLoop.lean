import Mathlib.Tactic.Ring
import OpenTorque.Core.Number

/-! The loop `for v := lo; v <= hi; v += step` over a Go `int`. The addition wraps round,
so the loop may visit values outside the range it was written for, or never end. -/
namespace OpenTorque

/-- The values the loop visits from `v` on, if it ends within so many tests. -/
def countUp (hi step : Int) : Nat → Int → Option (List Int)
  | 0, _ => none
  | tests + 1, v =>
    if hi < v then some []
    else (countUp hi step tests (wrap64 (v + step))).map (v :: ·)

/-- The values the whole loop visits. A loop that has not ended after as many tests as an
`int` has values never does, because the variable has come back to where it began. -/
def countLoop (lo hi step : Int) : Option (List Int) := countUp hi step (2 ^ 64) lo

variable {hi step v : Int}

theorem wrap64_wrap64 (n : Int) : wrap64 (wrap64 n) = wrap64 n := Int.bmod_bmod

theorem wrap64_advance (v step : Int) (rounds : Nat) :
    wrap64 (wrap64 (v + step) + rounds * step) = wrap64 (v + (rounds + 1 : Nat) * step) := by
  rw [wrap64, wrap64, wrap64, Int.bmod_add_bmod]
  congr 1
  push_cast
  ring

theorem countUp_eq_none_iff (fits : wrap64 v = v) (tests : Nat) :
    countUp hi step tests v = none ↔ ∀ rounds < tests, wrap64 (v + rounds * step) ≤ hi := by
  induction tests generalizing v with
  | zero => simp [countUp]
  | succ tests ih =>
    rw [countUp, Nat.forall_lt_succ_left]
    simp only [Nat.cast_zero, Int.zero_mul, Int.add_zero, fits]
    split
    case isTrue beyond => simp [beyond]
    case isFalse within =>
      rw [Option.map_eq_none_iff, ih (wrap64_wrap64 _)]
      simp only [wrap64_advance]
      exact (and_iff_right (not_lt.mp within)).symm

/-- The loop does not end exactly if the variable never passes the bound. -/
theorem countLoop_eq_none_iff (fits : wrap64 v = v) :
    countLoop v hi step = none ↔ ∀ rounds : Nat, wrap64 (v + rounds * step) ≤ hi := by
  rw [countLoop, countUp_eq_none_iff fits]
  refine ⟨fun below rounds => ?_, fun below rounds _ => below rounds⟩
  have again : wrap64 (v + rounds * step) = wrap64 (v + (rounds % 2 ^ 64 : Nat) * step) := by
    have split : v + rounds * step = v + (rounds % 2 ^ 64 : Nat) * step +
        (2 ^ 64 : Nat) * ((rounds / 2 ^ 64 : Nat) * step) := by
      conv_lhs => rw [← Nat.mod_add_div rounds (2 ^ 64)]
      push_cast
      ring
    rw [wrap64, wrap64, split, Int.add_mul_bmod_self_left]
  rw [again]
  exact below _ (Nat.mod_lt _ (by decide))

theorem countUp_step (within : v ≤ hi) (ended : countUp hi step tests v = some visited) :
    ∃ fewer rest, visited = v :: rest ∧ countUp hi step fewer (wrap64 (v + step)) = some rest := by
  cases tests with
  | zero => cases ended
  | succ tests =>
    rw [countUp, if_neg (not_lt.mpr within)] at ended
    obtain ⟨rest, later, rfl⟩ := Option.map_eq_some_iff.mp ended
    exact ⟨tests, rest, rfl, later⟩

theorem mem_of_countUp (fits : wrap64 v = v) {tests : Nat} {visited : List Int}
    (ended : countUp hi step tests v = some visited) (rounds : Nat)
    (within : ∀ i ≤ rounds, wrap64 (v + i * step) ≤ hi) : wrap64 (v + rounds * step) ∈ visited := by
  induction rounds generalizing v tests visited with
  | zero =>
    have first := within 0 le_rfl
    obtain ⟨_, rest, rfl, -⟩ := countUp_step (by simpa [fits] using first) ended
    simp [fits]
  | succ rounds ih =>
    have first := within 0 (by omega)
    obtain ⟨_, rest, rfl, later⟩ := countUp_step (by simpa [fits] using first) ended
    rw [← wrap64_advance]
    refine List.mem_cons_of_mem _ (ih (wrap64_wrap64 _) later fun i small => ?_)
    rw [wrap64_advance]
    exact within (i + 1) (by omega)

/-- While every next value fits, the loop visits the range it was written for. -/
theorem countUp_of_fits (positive : 0 < step) (low : minInt ≤ v)
    (fits : ∀ i : Nat, v + i * step ≤ hi → v + (i + 1 : Nat) * step ≤ maxInt) (tests : Nat)
    (enough : hi - v + 1 < tests) (positive' : 0 < tests) :
    ∃ visited, countUp hi step tests v = some visited ∧
      ∀ x, x ∈ visited ↔ ∃ i : Nat, x = v + i * step ∧ x ≤ hi := by
  induction tests generalizing v with
  | zero => omega
  | succ tests ih =>
    rw [countUp]
    split
    case isTrue beyond =>
      refine ⟨[], rfl, fun x => ⟨(fun none => nomatch none), ?_⟩⟩
      rintro ⟨i, rfl, within⟩
      have : 0 ≤ (i : Int) * step := Int.mul_nonneg (by omega) positive.le
      omega
    case isFalse within =>
      have next := fits 0 (by simpa using not_lt.mp within)
      rw [Nat.zero_add, Nat.cast_one, Int.one_mul] at next
      have exact : wrap64 (v + step) = v + step := wrap64_of_fits (by omega) next
      have shift (i : Nat) : v + step + i * step = v + (i + 1 : Nat) * step := by push_cast; ring
      obtain ⟨visited, ended, members⟩ := ih (v := v + step) (by omega)
        (fun i small => by
          rw [shift] at small ⊢
          exact fits (i + 1) small)
        (by omega) (by omega)
      refine ⟨v :: visited, by rw [exact, ended]; rfl, fun x => ?_⟩
      rw [List.mem_cons, members]
      constructor
      · rintro (rfl | ⟨i, rfl, small⟩)
        · exact ⟨0, by simp, not_lt.mp within⟩
        · exact ⟨i + 1, shift i, small⟩
      · rintro ⟨i, rfl, small⟩
        cases i with
        | zero => exact .inl (by simp)
        | succ i => exact .inr ⟨i, (shift i).symm, small⟩

end OpenTorque
