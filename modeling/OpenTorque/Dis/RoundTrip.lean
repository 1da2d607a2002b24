import Mathlib.Data.Nat.Digits.Lemmas
import OpenTorque.Core.Text
import OpenTorque.Dis.Format
import OpenTorque.Dis.Writer

/-! Reading back what has been written. A number is preceded by the chain of its digit
counts, and the reader follows the chain group by group; strings, attribute lists and
status objects are then read in the order in which they were written. -/
namespace OpenTorque.Dis
open Decoder

section Digits
variable {d : Nat}

theorem toNat_digitByte (small : d < 10) : (digitByte d).toNat = 48 + d := by
  rw [digitByte, UInt8.toNat_ofNat', Nat.mod_eq_of_lt (by omega)]

theorem isDigit_digitByte (small : d < 10) : isDigit (digitByte d) = true := by
  have value := toNat_digitByte small
  simp only [isDigit, Bool.and_eq_true, decide_eq_true_eq, UInt8.le_iff_toNat_le, value]
  constructor
  · exact Nat.le_add_right 48 d
  · show 48 + d ≤ 57
    omega

theorem isCount_digitByte (small : d < 10) (pos : d ≠ 0) : isCount (digitByte d) = true := by
  have value := toNat_digitByte small
  simp only [isCount, Bool.and_eq_true, decide_eq_true_eq, UInt8.le_iff_toNat_le, value]
  constructor
  · show 49 ≤ 48 + d
    omega
  · show 48 + d ≤ 57
    omega

theorem digit_digitByte (small : d < 10) : digit (digitByte d) = d := by
  rw [digit, toNat_digitByte small]
  omega

theorem isDigit_not_sign (digit : isDigit b = true) : isSign b = false := by
  simp only [isDigit, Bool.and_eq_true, decide_eq_true_eq] at digit
  simp only [isSign, Bool.or_eq_false_iff, beq_eq_false_iff_ne]
  constructor <;> rintro rfl <;> exact absurd digit.1 (by decide)

theorem formatUint_pos {n : Nat} (pos : n ≠ 0) :
    formatUint n = (Nat.digits 10 n).reverse.map digitByte := if_neg pos

theorem all_formatUint (n : Nat) : (formatUint n).all isDigit = true := by
  rw [List.all_eq_true, formatUint]
  split
  · decide +kernel
  · intro b member
    obtain ⟨d, listed, rfl⟩ := List.mem_map.mp member
    exact isDigit_digitByte (Nat.digits_lt_base (by decide) (List.mem_reverse.mp listed))

theorem formatUint_ne_nil (n : Nat) : formatUint n ≠ [] := by
  rw [formatUint]
  split
  · simp
  case isFalse pos => simp [Nat.digits_ne_nil_iff_ne_zero.mpr pos]

theorem decimal_map {digits : List Nat} (small : ∀ d ∈ digits, d < 10) :
    decimal (digits.reverse.map digitByte) = (Nat.ofDigits 10 digits : Nat) := by
  induction digits with
  | nil => rfl
  | cons d digits ih =>
    rw [List.forall_mem_cons] at small
    have step : ∀ (front : Bytes) (b : UInt8), decimal (front ++ [b]) = 10 * decimal front + digit b := by
      intro front b
      simp [decimal]
    rw [List.reverse_cons, List.map_append, List.map_singleton, step, ih small.2,
      digit_digitByte small.1, Nat.ofDigits_cons]
    push_cast
    omega

theorem decimal_formatUint (n : Nat) : decimal (formatUint n) = n := by
  by_cases zero : n = 0
  · subst zero
    rfl
  · rw [formatUint_pos zero, decimal_map fun d => Nat.digits_lt_base (by decide), Nat.ofDigits_digits]

theorem formatUint_cons {n : Nat} (pos : n ≠ 0) :
    ∃ first more, formatUint n = first :: more ∧ isCount first = true ∧ more.all isDigit = true := by
  have all := all_formatUint n
  rw [formatUint_pos pos] at all ⊢
  have some : Nat.digits 10 n ≠ [] := Nat.digits_ne_nil_iff_ne_zero.mpr pos
  have last := Nat.getLast_digit_ne_zero 10 pos
  have small := Nat.digits_lt_base (b := 10) (by decide) (List.getLast_mem some)
  rw [← List.dropLast_append_getLast some, List.reverse_concat, List.map_cons] at all ⊢
  rw [List.all_cons, Bool.and_eq_true] at all
  exact ⟨_, _, rfl, isCount_digitByte small last, all.2⟩

theorem length_formatUint_le {n k : Nat} (some : k ≠ 0) (small : n < 10 ^ k) :
    (formatUint n).length ≤ k := by
  rw [formatUint]
  split
  · simpa using Nat.one_le_iff_ne_zero.mpr some
  · simpa using (Nat.digits_length_le_iff (by decide) n).mpr small

theorem length_formatUint_lt {n : Nat} (more : 1 < n) : (formatUint n).length < n := by
  have small : n < 10 ^ (n - 1) := by
    obtain ⟨k, rfl⟩ : ∃ k, n = k + 2 := ⟨n - 2, by omega⟩
    rw [show k + 2 - 1 = k + 1 from rfl]
    induction k with
    | zero => decide
    | succ k ih =>
      have before := ih (by omega)
      rw [pow_succ]
      omega
  have length := length_formatUint_le (by omega) small
  omega

end Digits

section Numerals
variable {bytes tail front : Bytes} {post : Int × Bool → Bytes → Prop} {failed : Bytes → Prop}

theorem digit_nonneg (numeric : isDigit b = true) : 0 ≤ digit b := by
  simp only [isDigit, Bool.and_eq_true, decide_eq_true_eq, UInt8.le_iff_toNat_le] at numeric
  have least : 48 ≤ b.toNat := numeric.1
  rw [digit]
  omega

theorem wrap64_eq {n : Int} (low : -2 ^ 63 ≤ n) (high : n < 2 ^ 63) : wrap64 n = n :=
  Int.bmod_eq_of_le (by omega) (by omega)

/-- A count in the range of a machine integer is read without wrapping around. -/
theorem foldl_digits {more : Bytes} (digits : more.all isDigit = true) {n : Int} (nonneg : 0 ≤ n)
    (small : more.foldl (fun n b => 10 * n + digit b) n < 2 ^ 63) :
    n ≤ more.foldl (fun n b => 10 * n + digit b) n ∧
      more.foldl (fun n b => wrap64 (10 * n + digit b)) n =
        more.foldl (fun n b => 10 * n + digit b) n := by
  induction more generalizing n with
  | nil => exact ⟨le_refl n, rfl⟩
  | cons b more ih =>
    rw [List.all_cons, Bool.and_eq_true] at digits
    have value := digit_nonneg digits.1
    obtain ⟨grows, same⟩ := ih digits.2 (n := 10 * n + digit b) (by omega) small
    rw [List.foldl_cons] at small
    rw [List.foldl_cons, List.foldl_cons, wrap64_eq (by omega) (by omega)]
    exact ⟨by omega, same⟩

theorem groupCount_formatUint {n : Nat} (small : (n : Int) < 2 ^ 63) {first : UInt8} {more : Bytes}
    (spelled : formatUint n = first :: more) : groupCount first more = n := by
  have value := decimal_formatUint n
  have digits := all_formatUint n
  rw [spelled, List.all_cons, Bool.and_eq_true] at digits
  rw [spelled, decimal, List.foldl_cons, mul_zero, zero_add] at value
  rw [groupCount, (foldl_digits digits.2 (digit_nonneg digits.1) (by omega)).2, value]

theorem disrsi_count {n : Nat} (pos : n ≠ 0) (small : (n : Int) < makeBound UInt8) :
    (disrsi (formatUint n).length).Ensures post failed (formatUint n ++ tail) ↔
      (disrsi n).Ensures post failed tail := by
  obtain ⟨first, more, spelled, count, digits⟩ := formatUint_cons pos
  have width : ((formatUint n).length : Int) = more.length + 1 := by rw [spelled]; simp
  have length : ((formatUint n).length : Int) ≤ n := by
    by_cases one : n = 1
    · rw [one]
      decide
    · have less := length_formatUint_lt (n := n) (by omega)
      omega
  have group : Place.nextGroup ((formatUint n).length, formatUint n ++ tail) = some ((n : Int), tail) := by
    rw [width, spelled]
    simp only [List.cons_append, Place.nextGroup, count, add_sub_cancel_right, Int.toNat_natCast,
      List.take_left, List.drop_left, digits, List.length_append, Nat.le_add_right, and_self, if_true]
    rw [groupCount_formatUint (small.trans (by decide)) spelled]
  have announced : ∀ k ∈ Place.announced ((formatUint n).length, formatUint n ++ tail), InRange UInt8 k := by
    intro k known
    rw [width, spelled] at known
    simp only [List.cons_append, Place.announced, isCount_not_sign count, count, true_and,
      Bool.false_eq_true, if_false, Option.mem_ite_none_right, Option.mem_some_iff] at known
    exact ⟨by omega, by omega⟩
  rw [disrsi_ensures, disrsi_ensures, Place.group_spec group]
  exact and_iff_right announced

/-- The chain leads the reader to the number it announces. -/
theorem disrsi_countChain {fuel n : Nat} (enough : n ≤ fuel) (pos : n ≠ 0) (small : (n : Int) < makeBound UInt8) :
    (disrsi 1).Ensures post failed (countChain fuel n front ++ tail) ↔
      (disrsi n).Ensures post failed (front ++ tail) := by
  induction fuel generalizing n front with
  | zero => omega
  | succ fuel ih =>
    rw [countChain]
    split
    case isTrue more =>
      have less := length_formatUint_lt more
      have some := List.length_pos_iff.mpr (formatUint_ne_nil n)
      simp only
      rw [ih (by omega) (by omega) (by omega), List.append_assoc, disrsi_count pos small]
    case isFalse one =>
      obtain rfl : n = 1 := by omega
      rfl

theorem disrsi_sign {digits : Bytes} {sign : UInt8} (signed : isSign sign = true)
    (small : (digits.length : Int) < makeBound UInt8) :
    (disrsi digits.length).Ensures post failed (sign :: digits ++ tail) ↔
      (parseInt digits).elim (failed tail) fun val => post (val, isMinus sign) tail := by
  have last : Place.nextGroup (digits.length, sign :: digits ++ tail) = none := by
    simp only [List.cons_append, Place.nextGroup, ite_eq_right_iff, and_imp]
    intro count
    rw [isCount_not_sign count] at signed
    cases signed
  rw [disrsi_ensures, Place.last_spec last]
  simp only [List.cons_append, Place.announced, Place.finish, signed, if_true, Option.mem_some_iff,
    forall_eq', Int.toNat_natCast, List.length_append, Nat.le_add_right, List.take_left, List.drop_left]
  rw [and_iff_right ⟨by omega, small⟩]
  cases parseInt digits <;> rfl

theorem disrsi_number {digits : Bytes} {sign : UInt8} (signed : isSign sign = true)
    (some : digits ≠ []) (small : (digits.length : Int) < makeBound UInt8) :
    (disrsi 1).Ensures post failed (countPrefix digits.length sign ++ digits ++ tail) ↔
      (parseInt digits).elim (failed tail) fun val => post (val, isMinus sign) tail := by
  have pos : digits.length ≠ 0 := by simpa using some
  rw [countPrefix, List.append_assoc, disrsi_countChain (le_refl _) pos small]
  exact disrsi_sign signed small

end Numerals

section Numbers
variable {rest : Bytes}

theorem parseInt_formatUint (n : Nat) :
    parseInt (formatUint n) = if (n : Int) < 2 ^ 63 then some (n : Int) else none := by
  obtain ⟨b, more, spelled⟩ := List.exists_cons_of_ne_nil (formatUint_ne_nil n)
  have digits := all_formatUint n
  have value := decimal_formatUint n
  have first : isDigit b = true := by
    rw [spelled, List.all_cons, Bool.and_eq_true] at digits
    exact digits.1
  have unsigned := isDigit_not_sign first
  have positive : isMinus b = false := by
    simp only [isSign, Bool.or_eq_false_iff] at unsigned
    exact unsigned.2
  rw [spelled] at digits value ⊢
  simp [parseInt, unsigned, positive, digits, value]

theorem parseInt_formatInt {n : Int} (low : -2 ^ 63 ≤ n) (high : n < 2 ^ 63) :
    parseInt (formatInt n) = some n := by
  rw [formatInt]
  split
  case isTrue negative =>
    have some : formatUint n.natAbs ≠ [] := formatUint_ne_nil _
    have size : ((n.natAbs : Nat) : Int) = -n := by omega
    simp only [parseInt, List.head?_cons, Option.any_some, List.tail_cons, all_formatUint,
      decimal_formatUint, show isMinus 45 = true from rfl, show isSign 45 = true from rfl, if_true, size]
    simp [some, show -n ≤ 9223372036854775808 by omega]
  case isFalse nonneg =>
    rw [parseInt_formatUint, if_pos (by omega)]
    congr 1
    omega

theorem length_formatUint_small {n : Nat} (small : n < 2 ^ 64) : (formatUint n).length ≤ 20 :=
  length_formatUint_le (by decide) (by omega)

theorem uint64_eq {n : Int} (low : 0 ≤ n) (high : n < 2 ^ 64) : uint64 n = n := Int.emod_eq_of_lt low high

/-- A number of 64 bits is read back if it is one of 63 bits, and not read at all
otherwise. -/
theorem readUint_ensures_writeUint {post : Int → Bytes → Prop} {failed : Bytes → Prop} {n : Nat}
    (range : n < 2 ^ 64) : readUint.Ensures post failed (writeUint n ++ rest) ↔
      if n < 2 ^ 63 then post n rest else failed rest := by
  have length := length_formatUint_small range
  simp only [readUint, context, ensures_bind, ensures_mapError]
  rw [writeUint, disrsi_number rfl (formatUint_ne_nil n) (by rw [makeBound_byte]; omega), parseInt_formatUint]
  by_cases small : n < 2 ^ 63
  · rw [if_pos (by omega), if_pos small]
    simp [show isMinus 43 = false from rfl, uint64_eq (n := n) (by omega) (by omega)]
  · rw [if_neg (by omega), if_neg small]
    rfl

theorem readUint_writeUint {n : Nat} (small : n < 2 ^ 63) : readUint.Decodes (writeUint n) n := by
  intro rest
  rw [eq_value_iff, readUint_ensures_writeUint (by omega), if_pos small]
  exact ⟨rfl, rfl⟩

theorem readInt_writeInt {n : Int} (low : -2 ^ 63 ≤ n) (high : n < 2 ^ 63) :
    readInt.Decodes (writeInt n) n := by
  -- what is written after the sign is in range, even if it is the smallest number again
  have number : ∀ {m : Int} {sign : UInt8}, -2 ^ 63 ≤ m → m < 2 ^ 63 → isSign sign = true →
      (if isMinus sign then wrap64 (-m) else m) = n →
      readInt.Decodes (countPrefix (formatInt m).length sign ++ formatInt m) n := by
    intro m sign least most signed value rest
    have some : formatInt m ≠ [] := by
      rw [formatInt]
      split
      · simp
      · exact formatUint_ne_nil _
    have length : (formatInt m).length ≤ 21 := by
      have digits := length_formatUint_small (n := m.natAbs) (by omega)
      rw [formatInt]
      split
      · rw [List.length_cons]
        omega
      · omega
    rw [eq_value_iff]
    simp only [readInt, context, ensures_bind, ensures_mapError, ensures_pure]
    rw [disrsi_number signed some (by rw [makeBound_byte]; omega), parseInt_formatInt least most]
    exact ⟨value, rfl⟩
  rw [writeInt]
  split
  case isTrue negative =>
    refine number ?_ ?_ rfl ?_
    · exact Int.le_bmod (by decide)
    · exact Int.bmod_lt (by decide)
    · show wrap64 (-wrap64 (-n)) = n
      rw [wrap64, wrap64, Int.bmod_neg_bmod, neg_neg]
      exact wrap64_eq low high
  case isFalse nonneg => exact number low high rfl rfl

end Numbers

section Values
variable {s : Bytes}

theorem make_decodes {n : Int} (nonneg : 0 ≤ n) (small : n < makeBound UInt8) : (make UInt8 n).Decodes [] () :=
  .make ⟨nonneg, small⟩

theorem readFull_decodes (s : Bytes) : (readFull s.length).Decodes s s := .readFull (by simp)

theorem readString_writeString (small : (s.length : Int) < makeBound UInt8) :
    readString.Decodes (writeString s) s := by
  have size : s.length < 2 ^ 63 := by
    rw [makeBound_byte] at small
    omega
  refine ((readUint_writeUint size).mapError _).bind ?_
  by_cases empty : s = []
  · subst empty
    exact .pure []
  · have pos : ¬ (s.length : Int) = 0 := by simpa using empty
    rw [if_neg pos]
    exact (make_decodes (by omega) small).bind ((readFull_decodes s).mapError _)

/-- A slice or a string of a running program: it has been allocated. -/
structure Slice (α : Type) [Sized α] where
  items : List α
  allocated : (items.length : Int) < makeBound α

/-- An attribute in the memory of a program. -/
structure Attribute where
  name : Slice UInt8
  hasResc : Bool
  resc : Slice UInt8
  value : Slice UInt8
  op : Int
  range : -2 ^ 63 ≤ op ∧ op < 2 ^ 63

instance : Sized Attribute := ⟨Sized.bytes SvrAttrl⟩

namespace Attribute

theorem range_one : -2 ^ 63 ≤ (1 : Int) ∧ (1 : Int) < 2 ^ 63 := by decide

def svrAttrl (a : Attribute) : SvrAttrl := ⟨a.name.items, a.hasResc, a.resc.items, a.value.items, a.op⟩

/-- What is written of an attribute: its `Resc` only if it says that it has one. -/
def sent (a : Attribute) : SvrAttrl :=
  ⟨a.name.items, a.hasResc, if a.hasResc then a.resc.items else [], a.value.items, a.op⟩

/-- The attribute is written as it is. -/
structure Canonical (a : Attribute) : Prop where
  op : 0 ≤ a.op
  resc : a.hasResc = false → a.resc.items = []

theorem Canonical.sent_eq {a : Attribute} (canonical : a.Canonical) : a.sent = a.svrAttrl := by
  cases has : a.hasResc with
  | false => simp [sent, svrAttrl, has, canonical.resc has]
  | true => simp [sent, svrAttrl, has]

end Attribute

section Attributes
variable {failed : Prop} {rest : Bytes}

/-- A machine integer that is written as an unsigned number is read back unless it is
negative. -/
theorem readUint_writeCast {post : Int → Bytes → Prop} {n : Int} (low : -2 ^ 63 ≤ n) (high : n < 2 ^ 63) :
    readUint.Ensures post (fun _ => failed) (writeCast n ++ rest) ↔
      if 0 ≤ n then post n rest else failed := by
  have range : (uint64 n).toNat < 2 ^ 64 := by
    rw [uint64]
    omega
  rw [writeCast, readUint_ensures_writeUint range]
  by_cases nonneg : 0 ≤ n
  · rw [uint64_eq nonneg (by omega), if_pos (by omega), if_pos nonneg, Int.toNat_of_nonneg nonneg]
  · rw [if_neg (by rw [uint64]; omega), if_neg nonneg]

theorem readAttr_writeAttr (a : Attribute) (i : Nat) {post : SvrAttrl → Bytes → Prop} :
    (readAttr i).Ensures post (fun _ => failed) (writeAttr a.svrAttrl ++ rest) ↔
      if 0 ≤ a.op then post a.sent rest else failed := by
  obtain ⟨name, hasResc, resc, value, op, low, high⟩ := a
  have bounds := And.intro name.allocated (And.intro resc.allocated value.allocated)
  rw [makeBound_byte] at bounds
  have size : SvrAttrl.size ⟨name.items, hasResc, resc.items, value.items, op⟩ < 2 ^ 63 := by
    simp only [SvrAttrl.size]
    split <;> omega
  have one : readUint.Decodes (writeUint 1) 1 := readUint_writeUint (by decide)
  have zero : readUint.Decodes (writeUint 0) 0 := readUint_writeUint (by decide)
  simp only [readAttr, attrField, Attribute.svrAttrl, writeAttr, List.append_assoc, ensures_bind,
    ensures_mapError, (readUint_writeUint size).ensures, (readString_writeString name.allocated).ensures]
  have last : ∀ kept : Bytes, (do
      let value ← (readString.mapError (.attr i "value") : Reader Bytes)
      let op ← readUint.mapError (.attr i "op")
      pure (⟨name.items, hasResc, kept, value, wrap64 op⟩ : SvrAttrl) : Reader SvrAttrl).Ensures post
        (fun _ => failed) (writeString value.items ++ (writeCast op ++ rest)) ↔
      if 0 ≤ op then post ⟨name.items, hasResc, kept, value.items, op⟩ rest else failed := by
    intro kept
    simp only [ensures_bind, ensures_mapError, ensures_pure,
      (readString_writeString value.allocated).ensures, readUint_writeCast low high,
      wrap64_eq low high]
  cases hasResc with
  | false =>
    simp only [Bool.false_eq_true, if_false, zero.ensures, ne_eq, not_true, decide_false]
    exact last []
  | true =>
    simp only [if_true, List.append_assoc, one.ensures, ne_eq, one_ne_zero, not_false_eq_true,
      decide_true]
    rw [ensures_bind, ensures_mapError, (readString_writeString resc.allocated).ensures]
    exact last resc.items

theorem readAttrs_writeAttrs (attrs : List Attribute) (i : Nat) {post : List SvrAttrl → Bytes → Prop} :
    (readAttrs attrs.length i).Ensures post (fun _ => failed)
        ((attrs.map Attribute.svrAttrl).flatMap writeAttr ++ rest) ↔
      if ∀ a ∈ attrs, 0 ≤ a.op then post (attrs.map Attribute.sent) rest else failed := by
  induction attrs generalizing i post with
  | nil => simp [readAttrs]
  | cons a attrs ih =>
    simp only [List.length_cons, readAttrs, List.map_cons, List.flatMap_cons, List.append_assoc,
      ensures_bind, ensures_pure, readAttr_writeAttr, ih, List.forall_mem_cons]
    by_cases here : 0 ≤ a.op
    · simp [here]
    · simp [here]

theorem readSvrAttrl_writeSvrAttrl (attrs : Slice Attribute) {post : List SvrAttrl → Bytes → Prop} :
    readSvrAttrl.Ensures post (fun _ => failed)
        (writeSvrAttrl (attrs.items.map Attribute.svrAttrl) ++ rest) ↔
      if ∀ a ∈ attrs.items, 0 ≤ a.op then post (attrs.items.map Attribute.sent) rest else failed := by
  have bound := attrs.allocated
  have size : attrs.items.length < 2 ^ 63 := by
    have := makeBound_le Attribute
    omega
  simp only [readSvrAttrl, context, make, writeSvrAttrl, List.length_map, List.append_assoc, ensures_bind,
    ensures_mapError, ensures_make, (readUint_writeUint size).ensures, Int.toNat_natCast,
    readAttrs_writeAttrs]
  exact and_iff_right ⟨by omega, bound⟩

theorem readSvrAttrl_decodes {attrs : Slice Attribute} (nonneg : ∀ a ∈ attrs.items, 0 ≤ a.op) :
    readSvrAttrl.Decodes (writeSvrAttrl (attrs.items.map Attribute.svrAttrl))
      (attrs.items.map Attribute.sent) := by
  rw [decodes_iff]
  intro rest
  rw [readSvrAttrl_writeSvrAttrl, if_pos nonneg]
  exact ⟨rfl, rfl⟩

theorem readSvrAttrl_canonical {attrs : Slice Attribute} (canonical : ∀ a ∈ attrs.items, a.Canonical) :
    readSvrAttrl.Decodes (writeSvrAttrl (attrs.items.map Attribute.svrAttrl))
      (attrs.items.map Attribute.svrAttrl) := by
  have sent : attrs.items.map Attribute.sent = attrs.items.map Attribute.svrAttrl :=
    List.map_congr_left fun a member => (canonical a member).sent_eq
  have read := readSvrAttrl_decodes fun a member => (canonical a member).op
  rwa [sent] at read

end Attributes

end Values

/-! The client accepts what the server's reader accepts. -/
namespace Client
open Decoder (Extends)

theorem digitOf_eq (numeric : isDigit b = true) : digitOf b = digit b := by
  simp only [isDigit, Bool.and_eq_true, decide_eq_true_eq] at numeric
  rw [digitOf, digit, UInt8.toNat_sub_of_le _ _ numeric.1]
  have least : 48 ≤ b.toNat := UInt8.le_iff_toNat_le.mp numeric.1
  show ((b.toNat - 48 : Nat) : Int) = _
  omega

theorem readGroup_extends (count : Int) {first : UInt8} (known : isDigit first = true) :
    (readGroup count first).Extends (Dis.readGroup count first) := by
  rw [readGroup, Dis.readGroup]
  refine .ite (.bind (.refl _) fun _ => .bind (.refl _) fun buf => ?_) ?_
  · intro bytes n rest read
    cases bad : buf.find? (fun b => !isDigit b) with
    | some b =>
      rw [bad] at read
      cases read
    | none =>
      rw [bad] at read
      cases read
      have digits : ∀ b ∈ buf, isDigit b = true := by simpa [List.find?_eq_none] using bad
      have same : buf.foldl (fun n b => wrap64 (10 * n + digitOf b)) (digitOf first) =
          groupCount first buf := by
        rw [groupCount, digitOf_eq known]
        refine List.foldl_ext _ _ _ fun n b member => ?_
        rw [digitOf_eq (digits b member)]
      rw [same]
      rfl
  · rw [digitOf_eq known]
    exact .refl _

theorem disrsiFuel_extends (fuel : Nat) (count : Int) :
    (disrsiFuel fuel count).Extends (Dis.disrsiFuel fuel count) := by
  induction fuel generalizing count with
  | zero => exact .refl _
  | succ fuel ih =>
    rw [disrsiFuel, Dis.disrsiFuel]
    refine .bind (.refl _) fun c => .ite (.refl _) ?_
    split
    case isTrue counts =>
      have numeric : isDigit c = true := by
        simp only [isCount, isDigit, Bool.and_eq_true, decide_eq_true_eq] at counts ⊢
        exact ⟨UInt8.le_trans (by decide) counts.1, counts.2⟩
      exact .bind (readGroup_extends count numeric) ih
    case isFalse => exact .refl _

theorem disrsi_extends (count : Int) : (disrsi count).Extends (Dis.disrsi count) :=
  fun bytes a rest => disrsiFuel_extends bytes.length count bytes a rest

theorem readUint_extends : readUint.Extends Dis.readUint :=
  .bind (.mapError _ (disrsi_extends 1)) fun _ => .refl _

theorem readInt_extends : readInt.Extends Dis.readInt :=
  .bind (.mapError _ (disrsi_extends 1)) fun _ => .refl _

theorem readString_extends : readString.Extends Dis.readString :=
  .bind (.mapError _ readUint_extends) fun _ =>
    .ite (.refl _) (.bind (.refl _) fun _ => .mapError _ (.refl _))

theorem readAttr_extends (i : Nat) : readAttr.Extends (Dis.readAttr i) := by
  refine .bind (.mapError _ readUint_extends) fun _ => .bind (.mapError _ readString_extends) fun name =>
    .bind (.mapError _ readUint_extends) fun hasResc => ?_
  have last : ∀ resc, (do
      let value ← readString
      let op ← readUint
      pure ⟨name, hasResc ≠ 0, resc, value, wrap64 op⟩ : Reader SvrAttrl).Extends (do
      let value ← attrField i "value" Dis.readString
      let op ← attrField i "op" Dis.readUint
      pure ⟨name, hasResc ≠ 0, resc, value, wrap64 op⟩ : Reader SvrAttrl) := fun resc =>
    .bind (.mapError _ readString_extends) fun _ => .bind (.mapError _ readUint_extends) fun _ => .refl _
  exact .ite (.bind (.mapError _ readString_extends) last) (.bind (.refl _) last)

theorem readAttrs_extends (n i : Nat) : (readAttrs n).Extends (Dis.readAttrs n i) := by
  induction n generalizing i with
  | zero => exact .refl _
  | succ n ih => exact .bind (readAttr_extends i) fun _ => .bind (ih (i + 1)) fun _ => .refl _

theorem readSvrAttrl_extends : readSvrAttrl.Extends Dis.readSvrAttrl :=
  .bind (.mapError _ readUint_extends) fun _ => .bind (.refl _) fun _ => readAttrs_extends _ 0

/-- A status object in the memory of the server. -/
structure Object where
  type : Int
  name : Slice UInt8
  attrs : Slice Attribute
  range : -2 ^ 63 ≤ type ∧ type < 2 ^ 63

instance : Sized Object := ⟨Sized.bytes StatusObject⟩

namespace Object

def statusObject (o : Object) : StatusObject :=
  ⟨o.type, o.name.items, o.attrs.items.map Attribute.svrAttrl⟩

/-- The object is written as it is. -/
structure Canonical (o : Object) : Prop where
  type : 0 ≤ o.type
  attrs : ∀ a ∈ o.attrs.items, a.Canonical

end Object

theorem readObject_decodes {o : Object} (canonical : o.Canonical) (i : Nat) :
    (readObject i).Decodes (writeStatusObject o.statusObject) o.statusObject := by
  have type : Dis.readUint.Decodes (writeCast o.type) o.type := by
    rw [decodes_iff]
    intro rest
    rw [readUint_writeCast o.range.1 o.range.2, if_pos canonical.type]
    exact ⟨rfl, rfl⟩
  have cast : wrap64 o.type = o.type := wrap64_eq o.range.1 o.range.2
  refine ((type.extends readUint_extends).mapError _).bind
    ((((readString_writeString o.name.allocated).extends readString_extends).mapError _).bind ?_)
  rw [cast]
  exact (((readSvrAttrl_canonical canonical.attrs).extends readSvrAttrl_extends).mapError _).bind_pure _

theorem readObjects_decodes {objects : List Object} (canonical : ∀ o ∈ objects, o.Canonical) (i : Nat) :
    (readObjects objects.length i).Decodes ((objects.map Object.statusObject).flatMap writeStatusObject)
      (objects.map Object.statusObject) := by
  induction objects generalizing i with
  | nil => exact .pure []
  | cons o objects ih =>
    rw [List.forall_mem_cons] at canonical
    exact (readObject_decodes canonical.1 i).bind ((ih canonical.2 (i + 1)).bind_pure _)

theorem readStatusReply_decodes {objects : Slice Object} (canonical : ∀ o ∈ objects.items, o.Canonical) :
    readStatusReply.Decodes (writeStatusReply (objects.items.map Object.statusObject))
      (objects.items.map Object.statusObject) := by
  have bound := objects.allocated
  have size : objects.items.length < 2 ^ 63 := by
    have := makeBound_le Object
    omega
  have uint : ∀ {n : Nat}, n < 2 ^ 63 → readUint.Decodes (writeUint n) n := fun small =>
    (readUint_writeUint small).extends readUint_extends
  have int : readInt.Decodes (writeInt 0) 0 :=
    (readInt_writeInt (by decide) (by decide)).extends readInt_extends
  refine ((uint (by decide)).mapError _).bind (((uint (by decide)).mapError _).bind
    ((int.mapError _).bind ((int.mapError _).bind (((uint (by decide)).mapError _).bind ?_))))
  have accepted : ¬ (0 : Int) ≠ 0 := by simp
  have chosen : ¬ wrap64 replyChoiceStatus ≠ replyChoiceStatus := by
    rw [not_not]
    exact wrap64_eq (by decide) (by decide)
  rw [if_neg accepted, if_neg chosen, List.length_map]
  refine ((uint size).mapError _).bind ?_
  have allocated : (Decoder.make (makeBound StatusObject) objects.items.length : Decoder ReplyError Unit).Decodes [] () :=
    .make ⟨Int.natCast_nonneg _, bound⟩
  exact allocated.bind (readObjects_decodes canonical 0)

end Client

/-- Whatever has been written is read back, and the reader stops right behind it. -/
theorem written_values_read_back :
    (∀ n < 2 ^ 63, readUint.Decodes (writeUint n) n) ∧
    (∀ n : Int, -2 ^ 63 ≤ n → n < 2 ^ 63 → readInt.Decodes (writeInt n) n) ∧
    (∀ s : Slice UInt8, readString.Decodes (writeString s.items) s.items) ∧
    (∀ attrs : Slice Attribute, (∀ a ∈ attrs.items, a.Canonical) →
      readSvrAttrl.Decodes (writeSvrAttrl (attrs.items.map Attribute.svrAttrl))
        (attrs.items.map Attribute.svrAttrl)) ∧
    ∀ objects : Slice Client.Object, (∀ o ∈ objects.items, o.Canonical) →
      Client.readStatusReply.Decodes (writeStatusReply (objects.items.map Client.Object.statusObject))
        (objects.items.map Client.Object.statusObject) :=
  ⟨fun _ small => readUint_writeUint small, fun _ low high => readInt_writeInt low high,
    fun s => readString_writeString s.allocated, fun _ canonical => readSvrAttrl_canonical canonical,
    fun _ canonical => Client.readStatusReply_decodes canonical⟩

def sampleAttribute : Attribute where
  name := ⟨ascii "Resource_List", by decide⟩
  hasResc := true
  resc := ⟨ascii "walltime", by decide⟩
  value := ⟨ascii "01:00:00", by decide⟩
  op := 1
  range := Attribute.range_one

def sampleObject : Client.Object where
  type := 2
  name := ⟨ascii "12.server", by decide⟩
  attrs := ⟨[sampleAttribute], by decide⟩
  range := by decide

/-- The smallest number of 64 bits and an object with one attribute, each before a byte that
belongs to what follows. -/
theorem written_values_read_back_samples :
    readUint (ascii "210+1234567890#") = .value 1234567890 (ascii "#") ∧
      readInt (writeInt (-2 ^ 63) ++ ascii "#") = .value (-2 ^ 63) (ascii "#") ∧
      readString (ascii "+3abc#") = .value (ascii "abc") (ascii "#") ∧
      readSvrAttrl (writeSvrAttrl [sampleAttribute.svrAttrl] ++ ascii "#") =
        .value [sampleAttribute.svrAttrl] (ascii "#") ∧
      Client.readStatusReply (writeStatusReply [sampleObject.statusObject] ++ ascii "#") =
        .value [sampleObject.statusObject] (ascii "#") := by
  obtain ⟨uint, int, string, attrs, objects⟩ := written_values_read_back
  have attr : sampleAttribute.Canonical := ⟨by decide, fun without => nomatch without⟩
  have object : sampleObject.Canonical := ⟨by decide, by simpa [sampleObject] using attr⟩
  refine ⟨?_, int _ (by decide) (by decide) _, ?_, ?_, ?_⟩
  · exact uint 1234567890 (by decide) (ascii "#")
  · exact string ⟨ascii "abc", by decide⟩ (ascii "#")
  · exact attrs ⟨[sampleAttribute], by decide⟩ (by simpa using attr) (ascii "#")
  · exact objects ⟨[sampleObject], by decide⟩ (by simpa using object) (ascii "#")

end OpenTorque.Dis
