import OpenTorque.Core.Records
import OpenTorque.Server.Submission

/-! Which indices a job array specification stands for. The specification is client text;
what it denotes is stated here over its syntax, apart from the loop that computes it. -/
namespace OpenTorque.Pbs

/-- A decimal number without a sign that an `int` can hold; leading zeros are allowed. -/
structure Numeral where
  digits : List Char
  nonempty : digits ≠ []
  decimal : ∀ c ∈ digits, c.isDigit = true
  fits : (Nat.ofDigitChars 10 digits 0 : Int) ≤ maxInt

namespace Numeral
variable (n : Numeral)

def value : Int := Nat.ofDigitChars 10 n.digits 0

theorem value_nonneg : 0 ≤ n.value := Int.natCast_nonneg _

theorem digitsValue_digits : digitsValue false n.digits = some n.value := by
  have numeric : ¬ (n.digits = [] ∨ ¬ n.digits.all Char.isDigit) := by
    simp only [n.nonempty, false_or, not_not, List.all_eq_true]
    exact n.decimal
  have low : minInt ≤ n.value := le_trans (by decide) n.value_nonneg
  rw [digitsValue, if_neg numeric]
  exact if_pos ⟨low, n.fits⟩

theorem scanVerb_append (rest : List Char) (stops : ∀ c ∈ rest.head?, c.isDigit = false) :
    scanVerb (n.digits ++ rest) = some (n.value, rest) := by
  obtain ⟨c, cs, shape⟩ := List.exists_cons_of_ne_nil n.nonempty
  have digit : c.isDigit = true := n.decimal c (by simp [shape])
  have solid : Text.isSpace c = false := isSpace_of_isDigit digit
  have start : skipBlanks (n.digits ++ rest) = some (n.digits ++ rest) := by
    rw [shape, List.cons_append, skipBlanks, List.dropWhile_cons_of_neg (by simp [solid])]
    split
    case h_1 line => simp_all +decide
    case h_2 => rfl
  have plain : signed (n.digits ++ rest) = (false, n.digits ++ rest) := by
    rw [shape, List.cons_append]
    unfold signed
    split
    case h_3 => rfl
    all_goals simp_all +decide
  have taken : (n.digits ++ rest).takeWhile Char.isDigit = n.digits := by
    rw [List.takeWhile_append_of_pos n.decimal]
    cases rest with
    | nil => simp
    | cons c rest => rw [List.takeWhile_cons_of_neg (by simp [stops c rfl]), List.append_nil]
  have left : (n.digits ++ rest).dropWhile Char.isDigit = rest := by
    rw [List.dropWhile_append_of_pos n.decimal]
    cases rest with
    | nil => rfl
    | cons c rest => exact List.dropWhile_cons_of_neg (by simp [stops c rfl])
  simp [scanVerb, start, plain, taken, left, n.digitsValue_digits]

end Numeral

/-- The forms `N`, `A-B` and `A-B:S` of an item. -/
inductive ArrayItem where
  | single (n : Numeral)
  | range (lo hi : Numeral)
  | stepped (lo hi step : Numeral)

namespace ArrayItem

def chars : ArrayItem → List Char
  | single n => n.digits
  | range lo hi => lo.digits ++ '-' :: hi.digits
  | stepped lo hi step => lo.digits ++ '-' :: (hi.digits ++ ':' :: step.digits)

def text (item : ArrayItem) : String := .ofList item.chars

def bounds : ArrayItem → Int × Int × Int
  | single n => (n.value, n.value, 1)
  | range lo hi => (lo.value, hi.value, 1)
  | stepped lo hi step => (lo.value, hi.value, step.value)

def first (item : ArrayItem) : Int := min item.bounds.1 item.bounds.2.1
def last (item : ArrayItem) : Int := max item.bounds.1 item.bounds.2.1
def stride (item : ArrayItem) : Int := if item.bounds.2.2 ≤ 0 then 1 else item.bounds.2.2

/-- The integers that the item stands for. -/
def Denotes (item : ArrayItem) (v : Int) : Prop :=
  ∃ i : Nat, v = item.first + i * item.stride ∧ v ≤ item.last

/-- Each integer of the item has a successor that an `int` can hold. -/
def Fits (item : ArrayItem) : Prop := ∀ v, item.Denotes v → v + item.stride ≤ maxInt

variable (item : ArrayItem)

theorem parseArrayItem_text : parseArrayItem item.text = some item.bounds := by
  cases item with
  | single n =>
    have read := n.scanVerb_append [] (by simp)
    simp only [List.append_nil] at read
    simp [parseArrayItem, text, chars, bounds, read]
  | range lo hi =>
    have read := lo.scanVerb_append ('-' :: hi.digits) (by simp)
    have rest := hi.scanVerb_append [] (by simp)
    simp only [List.append_nil] at rest
    simp [parseArrayItem, text, chars, bounds, read, rest]
  | stepped lo hi step =>
    have read := lo.scanVerb_append ('-' :: (hi.digits ++ ':' :: step.digits)) (by simp)
    have rest := hi.scanVerb_append (':' :: step.digits) (by simp)
    have final := step.scanVerb_append [] (by simp)
    simp only [List.append_nil] at final
    simp [parseArrayItem, text, chars, bounds, read, rest, final]

theorem first_nonneg : 0 ≤ item.first := by
  cases item <;> exact le_min (Numeral.value_nonneg _) (Numeral.value_nonneg _)

theorem last_le : item.last ≤ maxInt := by
  cases item <;> exact max_le (Numeral.fits _) (Numeral.fits _)

theorem first_le_last : item.first ≤ item.last := min_le_max

theorem stride_pos : 0 < item.stride := by
  rw [stride]
  split <;> omega

theorem stride_le : item.stride ≤ maxInt := by
  rw [stride]
  split
  · decide
  · cases item with
    | single | range => exact show (1 : Int) ≤ maxInt by decide
    | stepped lo hi step => exact step.fits

theorem Denotes.nonneg {item : ArrayItem} {v : Int} (denoted : item.Denotes v) : 0 ≤ v := by
  obtain ⟨i, rfl, -⟩ := denoted
  have := item.first_nonneg
  have : 0 ≤ (i : Int) * item.stride := Int.mul_nonneg (by omega) item.stride_pos.le
  omega

theorem advance (i : Nat) : item.first + i * item.stride + item.stride =
    item.first + (i + 1 : Nat) * item.stride := by
  rw [Int.add_assoc, Int.natCast_succ, Int.add_mul, Int.one_mul]

/-- A loop whose next value always fits visits what the item denotes. -/
theorem addRange_of_fits (fits : item.Fits) :
    ∃ visited, addRange item.bounds.1 item.bounds.2.1 item.bounds.2.2 = some visited ∧
      ∀ v, v ∈ visited ↔ item.Denotes v := by
  have low := item.first_nonneg
  have high := item.last_le
  refine countUp_of_fits item.stride_pos (le_trans (by decide) low) (fun i within => ?_) (2 ^ 64) ?_
    (by decide)
  · have next := fits _ ⟨i, rfl, within⟩
    rwa [item.advance] at next
  · rw [maxInt] at high
    have : item.last - item.first + 1 < (2 ^ 64 : Nat) := by omega
    exact this

/-- A loop whose next value does not fit visits a negative number, if it ends at all. -/
theorem addRange_of_overflow (beyond : ¬ item.Fits) {visited : List Int}
    (ended : addRange item.bounds.1 item.bounds.2.1 item.bounds.2.2 = some visited) :
    ∃ v ∈ visited, v < 0 := by
  simp only [Fits, not_forall, not_le] at beyond
  obtain ⟨_, ⟨i, rfl, within⟩, past⟩ := beyond
  have low := item.first_nonneg
  have high := item.last_le
  have stride := item.stride_le
  have begins : wrap64 item.first = item.first :=
    wrap64_of_fits (le_trans (by decide) low) (item.first_le_last.trans high)
  have negative : wrap64 (item.first + (i + 1 : Nat) * item.stride) < 0 :=
    item.advance i ▸ wrap64_neg_of_over past (by omega)
  have inside (k : Nat) (small : k ≤ i + 1) :
      wrap64 (item.first + k * item.stride) ≤ item.last := by
    rcases Nat.lt_or_eq_of_le small with earlier | rfl
    · have below : (k : Int) * item.stride ≤ i * item.stride :=
        Int.mul_le_mul_of_nonneg_right (by omega) item.stride_pos.le
      have above : 0 ≤ (k : Int) * item.stride := Int.mul_nonneg (by omega) item.stride_pos.le
      rw [wrap64_of_fits (le_trans (by decide) (Int.add_nonneg low above)) (by omega)]
      omega
    · exact negative.le.trans (low.trans item.first_le_last)
  exact ⟨_, mem_of_countUp begins ended (i + 1) inside, negative⟩

theorem text_clean (member : c ∈ item.text.toList) : c.isDigit = true ∨ c = '-' ∨ c = ':' := by
  rw [text, String.toList_ofList] at member
  cases item with
  | single n => exact .inl (n.decimal c member)
  | range lo hi =>
    simp only [chars, List.mem_append, List.mem_cons] at member
    rcases member with digit | rfl | digit
    · exact .inl (lo.decimal c digit)
    · exact .inr (.inl rfl)
    · exact .inl (hi.decimal c digit)
  | stepped lo hi step =>
    simp only [chars, List.mem_append, List.mem_cons] at member
    rcases member with digit | rfl | digit | rfl | digit
    · exact .inl (lo.decimal c digit)
    · exact .inr (.inl rfl)
    · exact .inl (hi.decimal c digit)
    · exact .inr (.inr rfl)
    · exact .inl (step.decimal c digit)

theorem text_ne_empty : item.text ≠ "" := by
  intro empty
  have none := congrArg String.toList empty
  rw [text, String.toList_ofList] at none
  cases item with
  | single n => exact n.nonempty none
  | range => simp [chars] at none
  | stepped => simp [chars] at none

theorem trimSpace_text : Text.trimSpace item.text = item.text := by
  have solid : ∀ c ∈ item.text.toList, Text.isSpace c = false := by
    intro c member
    rcases item.text_clean member with digit | rfl | rfl
    · exact isSpace_of_isDigit digit
    · decide
    · decide
  rw [Text.trimSpace, Text.trim_of_clean solid, String.ofList_toList]

end ArrayItem

/-- The text of a list of items. -/
def arraySpec (items : List ArrayItem) : String := Text.join "," (items.map (·.text))

variable {items : List ArrayItem}

theorem readArrayItems_cons (item : ArrayItem) (rest : List String) (values : List Int) :
    readArrayItems (item.text :: rest) values =
      match addRange item.bounds.1 item.bounds.2.1 item.bounds.2.2 with
      | none => .endless
      | some range => readArrayItems rest (values ++ range) := by
  cases spread : addRange item.bounds.1 item.bounds.2.1 item.bounds.2.2 <;>
    simp [readArrayItems, item.trimSpace_text, item.text_ne_empty, item.parseArrayItem_text, spread]

theorem parseArraySpec_arraySpec (items : List ArrayItem) :
    parseArraySpec (arraySpec items) = readArrayItems (items.map (·.text)) [] := by
  cases items with
  | nil => decide
  | cons item rest =>
    have clean : ∀ part ∈ (item :: rest).map (·.text), ',' ∉ part.toList := by
      intro part member comma
      obtain ⟨item, -, rfl⟩ := List.mem_map.mp member
      rcases item.text_clean comma with digit | same | same
      · cases digit
      · cases same
      · cases same
    exact congrArg (readArrayItems · []) (Text.split_join rfl clean (by simp))

theorem mem_insertionSort_eraseDups {values : List Int} {v : Int} :
    v ∈ values.eraseDups.insertionSort (· ≤ ·) ↔ v ∈ values := by
  rw [List.mem_insertionSort, List.mem_eraseDups]

theorem readArrayItems_of_fits (fits : ∀ item ∈ items, item.Fits) (values : List Int) :
    ∃ indices, readArrayItems (items.map (·.text)) values = .indices indices ∧
      ∀ v, v ∈ indices ↔ v ∈ values ∨ ∃ item ∈ items, item.Denotes v := by
  induction items generalizing values with
  | nil => exact ⟨_, rfl, fun v => by simp⟩
  | cons item items ih =>
    obtain ⟨visited, ended, denoted⟩ := item.addRange_of_fits (fits item (by simp))
    obtain ⟨indices, read, members⟩ :=
      ih (fun other member => fits other (by simp [member])) (values ++ visited)
    refine ⟨indices, ?_, fun v => ?_⟩
    · rw [List.map_cons, readArrayItems_cons, ended]
      exact read
    · simp only [members, List.mem_append, denoted, List.mem_cons, exists_eq_or_imp, or_assoc]

/-- What has been collected stays, and every item has been read to its end. -/
theorem readArrayItems_visits {indices : List Int} (values : List Int)
    (read : readArrayItems (items.map (·.text)) values = .indices indices) :
    values ⊆ indices ∧ ∀ item ∈ items, ∃ visited,
      addRange item.bounds.1 item.bounds.2.1 item.bounds.2.2 = some visited ∧ visited ⊆ indices := by
  induction items generalizing values with
  | nil =>
    obtain rfl := ArraySpec.indices.inj read
    exact ⟨fun v => mem_insertionSort_eraseDups.mpr, by simp⟩
  | cons item items ih =>
    rw [List.map_cons, readArrayItems_cons] at read
    cases ended : addRange item.bounds.1 item.bounds.2.1 item.bounds.2.2 with
    | none => simp [ended] at read
    | some visited =>
      simp only [ended] at read
      obtain ⟨kept, rest⟩ := ih _ read
      refine ⟨fun v member => kept (by simp [member]), fun other member => ?_⟩
      rcases List.mem_cons.mp member with rfl | later
      · exact ⟨visited, ended, fun v member => kept (by simp [member])⟩
      · exact rest other later

theorem readArrayItems_ascending (texts : List String) (values : List Int) {indices : List Int}
    (read : readArrayItems texts values = .indices indices) : indices.Pairwise (· < ·) := by
  induction texts generalizing values with
  | nil =>
    obtain rfl := ArraySpec.indices.inj read
    have sorted := List.pairwise_insertionSort (· ≤ ·) values.eraseDups
    have nodup := (List.perm_insertionSort (· ≤ ·) _).nodup_iff.mpr (nodup_eraseDups values)
    exact (sorted.and nodup).imp fun both => lt_of_le_of_ne both.1 both.2
  | cons text texts ih =>
    simp only [readArrayItems] at read
    split at read
    · exact ih _ read
    · split at read
      · cases read
      · split at read
        · cases read
        · exact ih _ read

/-- A specification is read as the strictly ascending list of what its items denote exactly
if no item ends where the addition of its step would not fit. -/
theorem parseArraySpec_exact_iff (items : List ArrayItem) :
    (∃ indices, parseArraySpec (arraySpec items) = .indices indices ∧ indices.Pairwise (· < ·) ∧
      ∀ v, v ∈ indices ↔ ∃ item ∈ items, item.Denotes v) ↔ ∀ item ∈ items, item.Fits := by
  rw [parseArraySpec_arraySpec]
  constructor
  · rintro ⟨indices, read, -, exactly⟩ item member
    by_contra beyond
    obtain ⟨visited, ended, inside⟩ := (readArrayItems_visits [] read).2 item member
    obtain ⟨v, listed, negative⟩ := item.addRange_of_overflow beyond ended
    obtain ⟨other, -, denoted⟩ := (exactly v).mp (inside listed)
    exact absurd denoted.nonneg (not_le.mpr negative)
  · intro fits
    obtain ⟨indices, read, members⟩ := readArrayItems_of_fits fits []
    exact ⟨indices, read, readArrayItems_ascending _ _ read, by simpa using members⟩

def largest : Numeral where
  digits := "9223372036854775807".toList
  nonempty := by decide
  decimal := by decide
  fits := by decide

/-- A range up to the largest `int` does not end: no value of the variable is above it. -/
theorem addRange_largest : addRange maxInt maxInt 1 = none := by
  have fits : wrap64 maxInt = maxInt := wrap64_of_fits (by decide) le_rfl
  rw [addRange, min_self, max_self, countLoop_eq_none_iff fits]
  exact fun rounds => (wrap64_fits _).2

theorem readArrayItems_largest : readArrayItems [(ArrayItem.single largest).text] [] = .endless := by
  have value : largest.value = maxInt := by decide
  have endless : addRange (ArrayItem.single largest).bounds.1 (ArrayItem.single largest).bounds.2.1
      (ArrayItem.single largest).bounds.2.2 = none := by
    show addRange largest.value largest.value 1 = none
    rw [value]
    exact addRange_largest
  rw [readArrayItems_cons, endless]

/-- A step that does not fit takes the loop through negative numbers, and an index that is
the largest `int` keeps it from ending. -/
theorem array_spec_wraps_round :
    let one : Numeral := ⟨['1'], by decide, by decide +kernel, by decide⟩
    let five : Numeral := ⟨['5'], by decide, by decide +kernel, by decide⟩
    arraySpec [.stepped one five largest] = "1-5:9223372036854775807" ∧
      parseArraySpec "1-5:9223372036854775807" = .indices [-9223372036854775808, -1, 1] ∧
      arraySpec [.single largest] = "9223372036854775807" ∧
      parseArraySpec "9223372036854775807" = .endless := by
  have shown : arraySpec [.single largest] = "9223372036854775807" := by decide
  refine ⟨by decide, by decide +kernel, shown, ?_⟩
  rw [← shown, parseArraySpec_arraySpec]
  exact readArrayItems_largest

end OpenTorque.Pbs
