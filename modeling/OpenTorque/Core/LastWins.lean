import OpenTorque.Core.Assoc
import OpenTorque.Core.Records

/-! Records that are read line by line, where a later line overrides an earlier one. -/
namespace OpenTorque

section Override
variable {S A V : Type} {f : A → Option V} {l : List A} {v : V}

/-- The last value that the elements of a list give. -/
def lastOf (f : A → Option V) (l : List A) : Option V := (l.filterMap f).getLast?

@[simp] theorem lastOf_nil (f : A → Option V) : lastOf f [] = none := rfl

theorem lastOf_append (f : A → Option V) (l m : List A) :
    lastOf f (l ++ m) = (lastOf f m).or (lastOf f l) := by
  simp [lastOf, List.getLast?_append]

theorem lastOf_cons (f : A → Option V) (a : A) (l : List A) :
    lastOf f (a :: l) = (lastOf f l).or (f a) := by
  have single : lastOf f [a] = f a := by
    cases found : f a <;> simp [lastOf, found]
  rw [← List.singleton_append, lastOf_append, single]

theorem lastOf_eq_none : lastOf f l = none ↔ ∀ a ∈ l, f a = none := by
  simp [lastOf]

theorem exists_of_lastOf (found : lastOf f l = some v) : ∃ a ∈ l, f a = some v :=
  List.mem_filterMap.mp (List.mem_of_getLast? found)

theorem lastOf_eq_some (given : ∃ a ∈ l, f a = some v) (same : ∀ a ∈ l, ∀ w ∈ f a, w = v) :
    lastOf f l = some v := by
  cases found : lastOf f l with
  | none =>
    obtain ⟨a, member, gives⟩ := given
    rw [lastOf_eq_none.mp found a member] at gives
    cases gives
  | some w =>
    obtain ⟨a, member, gives⟩ := exists_of_lastOf found
    rw [same a member w gives]

/-- A field that every step of a fold sets or leaves alone ends with the last value. -/
theorem foldl_lastOf {read : S → A → S} {field : S → V}
    (sets : ∀ x a, field (read x a) = (f a).getD (field x)) (steps : List A) (x : S) :
    field (steps.foldl read x) = (lastOf f steps).getD (field x) := by
  induction steps generalizing x with
  | nil => rfl
  | cons a steps ih =>
    rw [List.foldl_cons, ih, sets, lastOf_cons]
    cases lastOf f steps <;> rfl

/-- The value that a loop over a map leaves, if only one key gives one. -/
theorem Assoc.lastOf_range {W : Type} {m : Assoc W} {order : RangeOrder} {f : String → Option V}
    (k : String) (only : ∀ other ≠ k, f other = none) (absent : k ∉ m → f k = none) :
    lastOf f (m.range order) = f k := by
  cases found : lastOf f (m.range order) with
  | none =>
    by_cases member : k ∈ m
    · exact (lastOf_eq_none.mp found k ((Assoc.mem_range order m).mpr member)).symm
    · exact (absent member).symm
  | some v =>
    obtain ⟨other, -, gives⟩ := exists_of_lastOf found
    by_cases same : other = k
    · rw [← same, gives]
    · simp [only other same] at gives

/-- Three places that can set a value, with two others between them. -/
theorem or_interleaved {late late' middle middle' early early' : Option V} (x y z : Option V)
    (first : late = late') (second : late.or middle = late'.or middle')
    (third : (late.or middle).or early = (late'.or middle').or early') :
    late.or (x.or (middle.or (y.or (early.or z)))) =
      late'.or (x.or (middle'.or (y.or (early'.or z)))) := by
  subst first
  cases late with
  | some v => rfl
  | none =>
    obtain rfl : middle = middle' := by simpa using second
    cases middle with
    | some v => rfl
    | none =>
      obtain rfl : early = early' := by simpa using third
      rfl

/-- A value that overrides every default is known from two of them. -/
theorem eq_of_getD {x y : Option V} {v w : V} (other : v ≠ w) (first : x.getD v = y.getD v)
    (second : x.getD w = y.getD w) : x = y := by
  cases x <;> cases y <;> simp_all

end Override

namespace Text

/-- The lines of chunks that each end with a line break, whatever breaks they contain. -/
theorem split_chunks (chunks : List String) :
    split '\n' (String.join (chunks.map (· ++ "\n"))) = chunks.flatMap (split '\n') ++ [""] := by
  have joined : String.join (chunks.map (· ++ "\n")) = join "\n" (chunks ++ [""]) := by
    induction chunks with
    | nil => rfl
    | cons chunk chunks ih =>
      rw [List.map_cons, String.join_cons, ih]
      refine String.toList_injective ?_
      cases chunks <;> simp [join]
  have lines : split '\n' (join "\n" (chunks ++ [""])) = (chunks ++ [""]).flatMap (split '\n') :=
    split_join_flatMap rfl (by simp)
  rw [joined, lines, List.flatMap_append]
  rfl

theorem trimRight_of_trimSpace {s : String} (trimmed : trimSpace s = s) : trimRight s = s := by
  have chars : trim s.toList = s.toList := by
    rw [← String.toList_ofList (l := trim s.toList)]
    exact congrArg String.toList trimmed
  have front : s.toList.dropWhile isSpace = s.toList := by
    refine (List.dropWhile_suffix _).eq_of_length_le ?_
    calc s.toList.length = (trim s.toList).length := by rw [chars]
      _ ≤ (s.toList.dropWhile isSpace).length := (List.rdropWhile_prefix _ _).length_le
  rw [trim, front] at chars
  rw [trimRight, chars, String.ofList_toList]

end Text

end OpenTorque
