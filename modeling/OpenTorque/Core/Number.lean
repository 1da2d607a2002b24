import Mathlib.Algebra.Order.BigOperators.Group.List
import Mathlib.Algebra.Order.Ring.Int
import OpenTorque.Core.Text

/-! Go's `int` and `int64`: wrap-around, decimal text and the instants of package
`time`. An instant counts nanoseconds from the zero time, so `IsZero` is `= 0`. -/
namespace OpenTorque

/-- Two's-complement wrap-around of a 64-bit signed integer. -/
def wrap64 (n : Int) : Int := Int.bmod n (2 ^ 64)

def maxInt : Int := 2 ^ 63 - 1
def minInt : Int := -2 ^ 63

theorem wrap64_of_fits (low : minInt ≤ n) (high : n ≤ maxInt) : wrap64 n = n := by
  unfold minInt at low
  unfold maxInt at high
  exact Int.bmod_eq_of_le (by omega) (by omega)

theorem wrap64_fits (n : Int) : minInt ≤ wrap64 n ∧ wrap64 n ≤ maxInt := by
  have low := Int.le_bmod (x := n) (m := 2 ^ 64) (by decide)
  have high := Int.bmod_lt (x := n) (m := 2 ^ 64) (by decide)
  unfold minInt maxInt wrap64
  omega

theorem wrap64_le (low : minInt ≤ n) : wrap64 n ≤ n := by
  rw [minInt] at low
  rw [wrap64, Int.bmod_def]
  split <;> omega

theorem wrap64_neg_of_over (low : maxInt < n) (high : n ≤ 2 * maxInt) : wrap64 n < 0 := by
  rw [maxInt] at low high
  rw [wrap64, Int.bmod_def]
  split <;> omega

/-- Only the last of two operations wraps. -/
theorem wrap64_wrap64_sub (a b : Int) : wrap64 (wrap64 a - b) = wrap64 (a - b) := Int.bmod_sub_bmod

/-- `strconv.Itoa` -/
def itoa : Int → String
  | .ofNat n => n.repr
  | .negSucc n => "-" ++ (n + 1).repr

/-- The value of a non-empty digit string within the range of `int64`. -/
def digitsValue (negative : Bool) (digits : List Char) : Option Int :=
  if digits = [] ∨ ¬ digits.all Char.isDigit then none
  else
    let n : Int := Nat.ofDigitChars 10 digits 0
    let value := if negative then -n else n
    if minInt ≤ value ∧ value ≤ maxInt then some value else none

def signed : List Char → Bool × List Char
  | '-' :: rest => (true, rest)
  | '+' :: rest => (false, rest)
  | rest => (false, rest)

/-- `strconv.ParseInt(s, 10, 64)` and `strconv.Atoi`, which agree on 64 bits. -/
def parseInt (s : String) : Option Int := digitsValue (signed s.toList).1 (signed s.toList).2

theorem digitsValue_toDigits (negative : Bool) (n : Nat)
    (fits : minInt ≤ (if negative then -(n : Int) else n) ∧
      (if negative then -(n : Int) else n) ≤ maxInt) :
    digitsValue negative (Nat.toDigits 10 n) = some (if negative then -(n : Int) else n) := by
  have numeric : (Nat.toDigits 10 n).all Char.isDigit := by
    rw [List.all_eq_true]
    exact fun c => Nat.isDigit_of_mem_toDigits (by omega) (by omega)
  rw [digitsValue, if_neg (by simp [Nat.toDigits_ne_nil, numeric]),
    Nat.ofDigitChars_toDigits (by omega) (by omega)]
  exact if_pos fits

theorem signed_of_digits {cs : List Char} (numeric : ∀ c ∈ cs, c.isDigit = true) :
    signed cs = (false, cs) := by
  cases cs with
  | nil => rfl
  | cons c cs =>
    have digit := numeric c (by simp)
    unfold signed
    split
    case h_3 => rfl
    all_goals simp_all +decide

theorem signed_toDigits (n : Nat) : signed (Nat.toDigits 10 n) = (false, Nat.toDigits 10 n) :=
  signed_of_digits fun _ => Nat.isDigit_of_mem_toDigits (by omega) (by omega)

theorem parseInt_itoa (n : Int) (low : minInt ≤ n) (high : n ≤ maxInt) :
    parseInt (itoa n) = some n := by
  cases n with
  | ofNat n =>
    rw [parseInt, itoa, Nat.toList_repr, signed_toDigits]
    exact digitsValue_toDigits false n ⟨low, high⟩
  | negSucc n =>
    have text : (itoa (.negSucc n)).toList = '-' :: Nat.toDigits 10 (n + 1) := by
      simp [itoa, Nat.toList_repr]
    rw [parseInt, text]
    exact digitsValue_toDigits true (n + 1) ⟨low, high⟩

theorem parseInt_fits (read : parseInt s = some n) : minInt ≤ n ∧ n ≤ maxInt := by
  simp only [parseInt, digitsValue, Option.ite_none_left_eq_some, Option.ite_none_right_eq_some,
    Option.some.injEq] at read
  obtain ⟨-, fits, rfl⟩ := read
  exact fits

theorem isSpace_of_isDigit {c : Char} (digit : c.isDigit) : Text.isSpace c = false := by
  have listed : ∀ k : Fin 10, Text.isSpace (Char.ofNat (48 + k)) = false := by decide
  simp only [Char.isDigit, ge_iff_le, Bool.and_eq_true, decide_eq_true_eq] at digit
  have low : 48 ≤ c.toNat := digit.1
  have high : c.toNat ≤ 57 := digit.2
  have here := listed ⟨c.toNat - 48, by omega⟩
  rwa [Nat.add_sub_cancel' low, Char.ofNat_toNat] at here

theorem itoa_injective : Function.Injective itoa := by
  have digits : ∀ {n m : Nat}, Nat.toDigits 10 n = Nat.toDigits 10 m → n = m := by
    intro n m same
    have values := congrArg (Nat.ofDigitChars 10 · 0) same
    simpa only [Nat.ofDigitChars_toDigits (b := 10) (by omega) (by omega)] using values
  have unsigned : ∀ {n m : Nat}, Nat.toDigits 10 n ≠ '-' :: Nat.toDigits 10 m := by
    intro n m same
    have numeric := Nat.isDigit_of_mem_toDigits (b := 10) (n := n) (c := '-') (by omega) (by omega)
      (by simp [same])
    exact absurd numeric (by decide)
  intro n m same
  have texts := congrArg String.toList same
  cases n with
  | ofNat n =>
    cases m with
    | ofNat m =>
      simp only [itoa, Nat.toList_repr] at texts
      rw [digits texts]
    | negSucc m =>
      simp only [itoa, String.toList_append, Nat.toList_repr] at texts
      exact absurd texts unsigned
  | negSucc n =>
    cases m with
    | ofNat m =>
      simp only [itoa, String.toList_append, Nat.toList_repr] at texts
      exact absurd texts.symm unsigned
    | negSucc m =>
      simp only [itoa, String.toList_append, Nat.toList_repr, List.append_cancel_left_eq] at texts
      rw [Nat.succ.inj (digits texts)]

theorem mem_itoa {n : Int} (member : c ∈ (itoa n).toList) : c = '-' ∨ c.isDigit := by
  cases n with
  | ofNat n =>
    rw [itoa, Nat.toList_repr] at member
    exact .inr (Nat.isDigit_of_mem_toDigits (by omega) (by omega) member)
  | negSucc n =>
    simp only [itoa, String.toList_append, Nat.toList_repr, List.mem_append] at member
    rcases member with sign | digit
    · exact .inl (by simpa using sign)
    · exact .inr (Nat.isDigit_of_mem_toDigits (by omega) (by omega) digit)

/-- The value `strconv.ParseInt` returns next to its error: zero for a text that is not
a number, the nearest bound for a number out of range. Digits that overflow a `uint64` are
reported before any character after them is read. -/
def parseIntOrZero (s : String) : Int :=
  let (negative, digits) := signed s.toList
  let n : Int := Nat.ofDigitChars 10 (digits.takeWhile Char.isDigit) 0
  if (digits = [] ∨ ¬ digits.all Char.isDigit) ∧ n < 2 ^ 64 then 0
  else if negative then max (-n) minInt else min n maxInt

theorem parseIntOrZero_cases (s : String) : parseInt s = some (parseIntOrZero s) ∨
    parseInt s = none ∧ (parseIntOrZero s = 0 ∨ parseIntOrZero s = minInt ∨ parseIntOrZero s = maxInt) := by
  simp only [parseInt, digitsValue, parseIntOrZero]
  generalize read : (Nat.ofDigitChars 10 ((signed s.toList).2.takeWhile Char.isDigit) 0 : Int) = n
  have wide : minInt < 0 ∧ 0 < maxInt ∧ -2 ^ 64 < minInt ∧ maxInt < 2 ^ 64 := by decide
  by_cases other : (signed s.toList).2 = [] ∨ ¬ (signed s.toList).2.all Char.isDigit = true
  · rw [if_pos other]
    refine .inr ⟨rfl, ?_⟩
    split
    · exact .inl rfl
    case isFalse large =>
      have large : 2 ^ 64 ≤ n := not_lt.mp fun small => large ⟨other, small⟩
      split <;> omega
  · obtain ⟨-, digits⟩ := not_or.mp other
    rw [List.takeWhile_eq_self_iff.mpr (List.all_eq_true.mp (not_not.mp digits))] at read
    have whole : ¬ (((signed s.toList).2 = [] ∨ ¬ (signed s.toList).2.all Char.isDigit = true) ∧
        n < 2 ^ 64) := fun both => other both.1
    rw [if_neg other, if_neg whole, read]
    cases (signed s.toList).1
    all_goals
      simp only [Bool.false_eq_true, if_true, if_false]
      split
      · exact .inl (congrArg some (by omega))
      · exact .inr ⟨rfl, by omega⟩

theorem parseIntOrZero_of_parseInt (read : parseInt s = some n) : parseIntOrZero s = n := by
  rcases parseIntOrZero_cases s with found | ⟨unread, -⟩
  · exact Option.some.inj (found.symm.trans read)
  · rw [unread] at read
    cases read

theorem parseIntOrZero_fits (s : String) : minInt ≤ parseIntOrZero s ∧ parseIntOrZero s ≤ maxInt := by
  rcases parseIntOrZero_cases s with found | ⟨-, zero | bound | bound⟩
  · exact parseInt_fits found
  · rw [zero]
    decide
  all_goals
    rw [bound]
    decide

/-- The blanks `Sscanf` skips before a number; a newline among them is an error. -/
def skipBlanks (cs : List Char) : Option (List Char) :=
  match cs.dropWhile fun c => Text.isSpace c && c ≠ '\n' with
  | '\n' :: _ => none
  | rest => some rest

/-- The verb `%d`: the number and the unread input. -/
def scanVerb (cs : List Char) : Option (Int × List Char) := do
  let rest ← skipBlanks cs
  let (negative, rest) := signed rest
  let value ← digitsValue negative (rest.takeWhile Char.isDigit)
  pure (value, rest.dropWhile Char.isDigit)

/-- `fmt.Sscanf(s, "%d", &x)`: `none` leaves `x` as it was. -/
def scanInt (s : String) : Option Int := (scanVerb s.toList).map (·.1)

theorem scanInt_itoa (n : Int) (low : minInt ≤ n) (high : n ≤ maxInt) :
    scanInt (itoa n) = some n := by
  have unspaced : ∀ cs : List Char, (∀ c ∈ cs, c = '-' ∨ c.isDigit) → skipBlanks cs = some cs := by
    intro cs numeral
    cases cs with
    | nil => rfl
    | cons c cs =>
      have solid : Text.isSpace c = false := by
        rcases numeral c (by simp) with rfl | digit
        · decide
        · exact isSpace_of_isDigit digit
      have broken : c ≠ '\n' := by
        rintro rfl
        simp [Text.isSpace] at solid
      simp [skipBlanks, solid, broken]
  have digits : ∀ m : Nat, (Nat.toDigits 10 m).takeWhile Char.isDigit = Nat.toDigits 10 m :=
    fun m => List.takeWhile_eq_self_iff.mpr fun c => Nat.isDigit_of_mem_toDigits (by omega) (by omega)
  have skipped := unspaced (itoa n).toList fun c => mem_itoa
  have text := parseInt_itoa n low high
  simp only [scanInt, scanVerb, skipped, Option.bind_eq_bind, Option.bind_some]
  cases n with
  | ofNat m =>
    rw [parseInt, itoa, Nat.toList_repr, signed_toDigits] at text
    simp only [itoa, Nat.toList_repr, signed_toDigits, digits, text]
    rfl
  | negSucc m =>
    have shape : (itoa (.negSucc m)).toList = '-' :: Nat.toDigits 10 (m + 1) := by
      simp [itoa, Nat.toList_repr]
    rw [parseInt, shape] at text
    simp only [shape, signed, digits] at text ⊢
    rw [text]
    rfl

theorem oneLine_itoa (n : Int) : Text.OneLine (itoa n) := fun broken => by
  simpa using mem_itoa broken

/-- `fmt.Sscanf(s, "%d", &x)` on a variable that holds `old`. -/
def scanInto (old : Int) (s : String) : Int := (scanInt s).getD old

theorem scanInto_fits (old : Int) (s : String) (range : minInt ≤ old ∧ old ≤ maxInt) :
    minInt ≤ scanInto old s ∧ scanInto old s ≤ maxInt := by
  rw [scanInto]
  cases read : scanInt s with
  | none => exact range
  | some n =>
    obtain ⟨⟨value, rest⟩, scanned, rfl⟩ := Option.map_eq_some_iff.mp read
    simp only [scanVerb, Option.bind_eq_bind, Option.bind_eq_some_iff, Option.pure_def,
      Option.some.injEq, Prod.mk.injEq] at scanned
    obtain ⟨blanks, -, number, digits, rfl, -⟩ := scanned
    simp only [digitsValue, Option.ite_none_left_eq_some, Option.ite_none_right_eq_some,
      Option.some.injEq] at digits
    obtain ⟨-, fits, rfl⟩ := digits
    exact fits

/-- An instant, in nanoseconds from the zero time. -/
abbrev Time := Int

namespace Time

def second : Int := 10 ^ 9

/-- Seconds between the zero time and the Unix epoch. -/
def epoch : Int := 62135596800

/-- `time.Unix(sec, 0)` -/
def ofUnix (sec : Int) : Time := wrap64 (sec + epoch) * second

/-- The time a number of seconds stands for, without overflow. -/
def ofUnixExact (sec : Int) : Time := (sec + epoch) * second

theorem ofUnix_eq (low : minInt ≤ sec) (high : sec + epoch ≤ maxInt) :
    ofUnix sec = ofUnixExact sec := by
  have above : minInt ≤ sec + epoch := by
    simp only [epoch]
    omega
  rw [ofUnix, wrap64_of_fits above high, ofUnixExact]

/-- `t.Unix()` -/
def unix (t : Time) : Int := wrap64 (t / second - epoch)

def isZero (t : Time) : Bool := t = 0

end Time

end OpenTorque
