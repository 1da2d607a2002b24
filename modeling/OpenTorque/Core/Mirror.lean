import Mathlib.Data.List.Nodup
import Mathlib.Logic.Function.Basic

/-! One relation recorded from both ends: where each guest is placed, and which guests
each place has. The two tables are written one after the other, so agreement is an
invariant and not a fact about either table. -/
namespace OpenTorque
variable {K N : Type}

/-- The tables record the same pairs, and no place lists a guest twice. -/
structure Mirror (places : K → List N) (guests : N → List K) : Prop where
  both : ∀ k n, k ∈ guests n ↔ n ∈ places k
  nodup : ∀ n, (guests n).Nodup

namespace Mirror
variable {places : K → List N} {guests : N → List K}

theorem not_mem (mirror : Mirror places guests) (idle : places k = []) (n : N) :
    k ∉ guests n := by
  simp [mirror.both, idle]

variable [DecidableEq K] [DecidableEq N]

omit [DecidableEq N] in
theorem erase_idle (mirror : Mirror places guests) (idle : places k = []) (n : N) :
    (guests n).erase k = guests n := List.erase_of_not_mem (mirror.not_mem idle n)

/-- A guest leaves all its places; the list of places to visit may be longer. -/
theorem release (mirror : Mirror places guests) (names : List N)
    (covers : ∀ n ∈ places k, n ∈ names) :
    Mirror (Function.update places k [])
      (fun n => if n ∈ names then (guests n).erase k else guests n) where
  both x n := by
    by_cases visited : n ∈ names
    · by_cases same : x = k
      · subst same
        simp [visited, (mirror.nodup n).not_mem_erase]
      · simp [visited, same, List.mem_erase_of_ne, mirror.both]
    · by_cases same : x = k
      · subst same
        have away : n ∉ places x := fun placed => visited (covers n placed)
        simp [visited, mirror.both, away]
      · simp [visited, same, mirror.both]
  nodup n := by
    split
    · exact (mirror.nodup n).erase k
    · exact mirror.nodup n

theorem assign (mirror : Mirror places guests) (names : List N) (idle : places k = []) :
    Mirror (Function.update places k names)
      (fun n => if n ∈ names then guests n ++ [k] else guests n) where
  both x n := by
    by_cases same : x = k
    · subst same
      by_cases taken : n ∈ names <;> simp [taken, mirror.not_mem idle]
    · by_cases taken : n ∈ names <;> simp [taken, same, mirror.both]
  nodup n := by
    split
    · refine List.nodup_append.mpr ⟨mirror.nodup n, List.nodup_singleton k, ?_⟩
      rintro x listed y alone rfl
      exact mirror.not_mem idle n (List.mem_singleton.mp alone ▸ listed)
    · exact mirror.nodup n

end Mirror

end OpenTorque
