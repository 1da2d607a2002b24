import Mathlib.Logic.Basic
import Mathlib.Data.List.Basic

/-! Finite runs of a total step function and of a step relation. A condition on
steps is read in the state in which the step is taken, so an invariant may be
preserved only by the steps that meet it. Nothing here assumes that a run ends,
that steps are fair or that the state is finite. -/
namespace OpenTorque.Transition
variable {S L E H : Type*}

/-- Evaluate a list of labels, keeping what each step emits in order. -/
def run (step : S → L → S × List E) : S → List L → S × List E
  | s, [] => (s, [])
  | s, l :: ls =>
    let now := step s l
    let later := run step now.1 ls
    (later.1, now.2 ++ later.2)

@[simp] theorem run_nil (step : S → L → S × List E) (s : S) : run step s [] = (s, []) := rfl

@[simp] theorem run_cons (step : S → L → S × List E) (s : S) (l : L) (ls : List L) :
    run step s (l :: ls) =
      ((run step (step s l).1 ls).1, (step s l).2 ++ (run step (step s l).1 ls).2) := rfl

/-- `P` holds of every step of the run, in the state before the step. -/
def Along (next : S → L → S) (P : S → L → Prop) : S → List L → Prop
  | _, [] => True
  | s, l :: ls => P s l ∧ Along next P (next s l) ls

instance Along.decidable (next : S → L → S) (P : S → L → Prop) [∀ s l, Decidable (P s l)] :
    (s : S) → (ls : List L) → Decidable (Along next P s ls)
  | _, [] => inferInstanceAs (Decidable True)
  | s, l :: ls => @instDecidableAnd _ _ _ (Along.decidable next P (next s l) ls)

namespace Along
variable {next : S → L → S} {P Q R : S → L → Prop} {I : S → Prop} {s : S} {ls : List L}

theorem invariant (preserves : ∀ s l, I s → P s l → I (next s l))
    (along : Along next P s ls) (initial : I s) : I (ls.foldl next s) := by
  induction ls generalizing s with
  | nil => exact initial
  | cons l ls ih => exact ih along.2 (preserves s l initial along.1)

/-- Two conditions that agree wherever the invariant and `P` hold select the same
runs. -/
theorem congr (preserves : ∀ s l, I s → P s l → I (next s l))
    (same : ∀ s l, I s → P s l → (Q s l ↔ R s l)) (along : Along next P s ls) (initial : I s) :
    Along next Q s ls ↔ Along next R s ls := by
  induction ls generalizing s with
  | nil => rfl
  | cons l ls ih =>
    exact and_congr (same s l initial along.1) (ih along.2 (preserves s l initial along.1))

theorem append : Along next P s (before ++ after) ↔
    Along next P s before ∧ Along next P (before.foldl next s) after := by
  induction before generalizing s with
  | nil => simp [Along]
  | cons l before ih => simp only [List.cons_append, Along, ih, List.foldl_cons, and_assoc]

/-- What the invariant and `P` entail of a step holds of every step of the run. -/
theorem entails (preserves : ∀ s l, I s → P s l → I (next s l)) (entailed : ∀ s l, I s → P s l → Q s l)
    (along : Along next P s ls) (initial : I s) : Along next Q s ls := by
  induction ls generalizing s with
  | nil => trivial
  | cons l ls ih =>
    exact ⟨entailed s l initial along.1, ih along.2 (preserves s l initial along.1)⟩

theorem and (first : Along next P s ls) (second : Along next Q s ls) :
    Along next (fun s l => P s l ∧ Q s l) s ls := by
  induction ls generalizing s with
  | nil => trivial
  | cons l ls ih => exact ⟨⟨first.1, second.1⟩, ih first.2 second.2⟩

/-- An invariant that each step keeps exactly under a condition, and never restores. -/
theorem foldl_iff (step : ∀ s, ∀ l ∈ ls, (I (next s l) ↔ I s ∧ P s l)) :
    I (ls.foldl next s) ↔ I s ∧ Along next P s ls := by
  induction ls generalizing s with
  | nil => simp [Along]
  | cons l ls ih =>
    rw [List.foldl_cons, ih fun s l member => step s l (List.mem_cons_of_mem _ member),
      step s l List.mem_cons_self, Along, and_assoc]

end Along

/-- `t` is reached from `s` by steps that meet `P`. -/
def Reaches (next : S → L → S) (P : S → L → Prop) (s t : S) : Prop :=
  ∃ ls, Along next P s ls ∧ ls.foldl next s = t

namespace Reaches
variable {next : S → L → S} {P Q : S → L → Prop} {I : S → Prop} {s t u : S}

theorem refl : Reaches next P s s := ⟨[], trivial, rfl⟩

theorem single (l : L) (met : P s l) : Reaches next P s (next s l) := ⟨[l], ⟨met, trivial⟩, rfl⟩

theorem trans (first : Reaches next P s t) (second : Reaches next P t u) : Reaches next P s u := by
  obtain ⟨before, met, rfl⟩ := first
  obtain ⟨after, met', rfl⟩ := second
  exact ⟨before ++ after, Along.append.mpr ⟨met, met'⟩, List.foldl_append ..⟩

theorem invariant (preserves : ∀ s l, I s → P s l → I (next s l)) (path : Reaches next P s t)
    (initial : I s) : I t := by
  obtain ⟨ls, met, rfl⟩ := path
  exact met.invariant preserves initial

end Reaches

/-- A step function together with a history variable, which sees the state before the
step and the label. -/
def watched (next : S → L → S) (note : S → L → H → H) (w : S × H) (l : L) : S × H :=
  (next w.1 l, note w.1 l w.2)

/-- What a run emits is allowed exactly when every single step emits allowed
effects: no effect is lost or added between the steps. -/
theorem run_emits_iff (step : S → L → S × List E) (allowed : E → Prop) (s : S) (ls : List L) :
    (∀ e ∈ (run step s ls).2, allowed e) ↔
      Along (fun s l => (step s l).1) (fun s l => ∀ e ∈ (step s l).2, allowed e) s ls := by
  induction ls generalizing s with
  | nil => simp [Along]
  | cons l ls ih =>
    simp only [run_cons, List.mem_append, or_imp, forall_and, Along]
    exact and_congr_right fun _ => ih _

theorem run_invariant {step : S → L → S × List E} {I : S → Prop} {ls : List L}
    (preserves : ∀ s, ∀ l ∈ ls, I s → I (step s l).1) (initial : I s) : I (run step s ls).1 := by
  induction ls generalizing s with
  | nil => exact initial
  | cons l ls ih =>
    exact ih (fun s l member => preserves s l (by simp [member]))
      (preserves s l (by simp) initial)

theorem run_emits {step : S → L → S × List E} {allowed : E → Prop} {ls : List L}
    (stepped : ∀ s, ∀ l ∈ ls, ∀ e ∈ (step s l).2, allowed e) :
    ∀ e ∈ (run step s ls).2, allowed e := by
  induction ls generalizing s with
  | nil => simp
  | cons l ls ih =>
    intro e member
    rcases List.mem_append.mp member with now | later
    · exact stepped s l (by simp) e now
    · exact ih (fun s l member => stepped s l (by simp [member])) e later

end OpenTorque.Transition
