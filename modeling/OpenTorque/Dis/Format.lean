import Mathlib.Logic.Relation
import OpenTorque.Dis.Reader

/-! The wire format of DIS and the sizes a stream announces in it. A numeral is a chain
of digit groups, each announcing the width of the next; a string announces its
length and an attribute list its number of entries. The readers end with a value or
a failure exactly on the streams whose announced sizes are allocatable. -/
namespace OpenTorque.Dis

def InRange (α : Type) [Sized α] (n : Int) : Prop := 0 ≤ n ∧ n < makeBound α

/-- A place inside a numeral: the announced width of the group that starts here and
the bytes from here on. -/
abbrev Place := Int × Bytes

namespace Place

/-- The place after a complete count group, which announces the next width. -/
def nextGroup : Place → Option Place
  | (_, []) => none
  | (w, b :: tail) =>
    if isCount b ∧ (w - 1).toNat ≤ tail.length ∧ (tail.take (w - 1).toNat).all isDigit then
      some (groupCount b (tail.take (w - 1).toNat), tail.drop (w - 1).toNat)
    else none

def Chain : Place → Place → Prop := Relation.ReflTransGen fun p q => p.nextGroup = some q

/-- The bytes announced beyond the first one here: all digits of the value after a
sign, all but the first digit of a count group. -/
def announced : Place → Option Int
  | (_, []) => none
  | (w, b :: _) =>
    if isSign b then some w else if isCount b ∧ w > 1 then some (w - 1) else none

/-- Every group of the numeral announces an allocatable width. -/
def Fits (p : Place) : Prop := ∀ q, p.Chain q → ∀ n ∈ q.announced, InRange UInt8 n

/-- The value and sign at the end of a chain, none if the numeral is malformed there,
and the bytes after it. -/
def finish : Place → Option (Int × Bool) × Bytes
  | (_, []) => (none, [])
  | (w, b :: tail) =>
    if isSign b then
      if w.toNat ≤ tail.length then
        ((parseInt (tail.take w.toNat)).map (·, isMinus b), tail.drop w.toNat)
      else (none, [])
    else if isCount b then (none, tail.drop (w - 1).toNat)
    else (none, tail)

/-- The numeral at `p` denotes `result` and is followed by `rest`. -/
def Denotes (p : Place) (result : Option (Int × Bool)) (rest : Bytes) : Prop :=
  ∃ q, p.Chain q ∧ q.nextGroup = none ∧ q.finish = (result, rest)

variable {p q : Place} {post : Int × Bool → Bytes → Prop} {failed : Bytes → Prop}

/-- What follows the numeral at `p`: `post` after a value, `failed` after a malformed
one. -/
def Leads (p : Place) (post : Int × Bool → Bytes → Prop) (failed : Bytes → Prop) : Prop :=
  ∀ result rest, p.Denotes result rest → result.elim (failed rest) (post · rest)

theorem chain_of_last (last : p.nextGroup = none) : p.Chain q ↔ q = p := by
  constructor
  · intro chain
    rcases Relation.ReflTransGen.cases_head chain with same | ⟨next, group, _⟩
    · exact same.symm
    · rw [last] at group
      cases group
  · rintro rfl
    exact .refl

theorem chain_of_group (group : p.nextGroup = some q) : p.Chain r ↔ r = p ∨ q.Chain r := by
  constructor
  · intro chain
    rcases Relation.ReflTransGen.cases_head chain with same | ⟨next, group', rest⟩
    · exact .inl same.symm
    · rw [group] at group'
      cases group'
      exact .inr rest
  · rintro (rfl | rest)
    · exact .refl
    · exact .head group rest

theorem last_spec (last : p.nextGroup = none) :
    p.Fits ∧ p.Leads post failed ↔
      (∀ n ∈ p.announced, InRange UInt8 n) ∧
        p.finish.1.elim (failed p.finish.2) (post · p.finish.2) := by
  unfold Fits Leads Denotes
  simp only [chain_of_last last, forall_eq, exists_eq_left, last, true_and, and_congr_right_iff]
  intro _
  constructor
  · exact fun leads => leads _ _ rfl
  · intro leads result rest same
    rw [same] at leads
    exact leads

theorem group_spec (group : p.nextGroup = some q) :
    p.Fits ∧ p.Leads post failed ↔
      (∀ n ∈ p.announced, InRange UInt8 n) ∧ q.Fits ∧ q.Leads post failed := by
  have fits : p.Fits ↔ (∀ n ∈ p.announced, InRange UInt8 n) ∧ q.Fits := by
    simp only [Fits, chain_of_group group, or_imp, forall_and, forall_eq]
  have denotes : ∀ result rest, p.Denotes result rest ↔ q.Denotes result rest := by
    intro result rest
    simp only [Denotes, chain_of_group group]
    constructor
    · rintro ⟨r, rfl | chain, last, same⟩
      · rw [group] at last
        cases last
      · exact ⟨r, chain, last, same⟩
    · rintro ⟨r, chain, last, same⟩
      exact ⟨r, .inr chain, last, same⟩
  simp only [fits, Leads, denotes, and_assoc]

end Place

section Numerals
variable {post : Int × Bool → Bytes → Prop} {failed : Bytes → Prop} {bytes : Bytes}
open Decoder

theorem isCount_not_sign (count : isCount b = true) : isSign b = false := by
  simp only [isCount, Bool.and_eq_true, decide_eq_true_eq] at count
  simp only [isSign, Bool.or_eq_false_iff, beq_eq_false_iff_ne]
  constructor <;> rintro rfl <;> exact absurd count.1 (by decide)

theorem readDigits_ensures (w : Int) (negate : Bool) :
    (readDigits w negate).Ensures post failed bytes ↔
      InRange UInt8 w ∧
        if w.toNat ≤ bytes.length then
          (parseInt (bytes.take w.toNat)).elim (failed (bytes.drop w.toNat))
            fun val => post (val, negate) (bytes.drop w.toNat)
        else failed [] := by
  simp only [readDigits, make, readFull, ensures_bind, ensures_make, ensures_readFull]
  refine and_congr_right fun _ => ?_
  split
  · cases parseInt (bytes.take w.toNat) <;> simp
  · rfl

theorem find_nondigit (buf : Bytes) :
    buf.find? (fun b => !isDigit b) = none ↔ buf.all isDigit := by
  simp [List.find?_eq_none]

theorem readGroup_ensures (w : Int) (first : UInt8) (post : Int → Bytes → Prop) :
    (readGroup w first).Ensures post failed bytes ↔
      (w > 1 → InRange UInt8 (w - 1)) ∧
        if (w - 1).toNat ≤ bytes.length ∧ (bytes.take (w - 1).toNat).all isDigit then
          post (groupCount first (bytes.take (w - 1).toNat)) (bytes.drop (w - 1).toNat)
        else failed (bytes.drop (w - 1).toNat) := by
  unfold readGroup
  by_cases wide : w > 1
  · rw [if_pos wide]
    simp only [make, readFull, ensures_bind, ensures_make, ensures_readFull, wide, forall_const]
    refine and_congr_right fun _ => ?_
    by_cases enough : (w - 1).toNat ≤ bytes.length
    · rw [if_pos enough]
      by_cases all : (bytes.take (w - 1).toNat).all isDigit
      · rw [if_pos ⟨enough, all⟩, (find_nondigit _).mpr all]
        rfl
      · rw [if_neg fun both => all both.2]
        cases found : (bytes.take (w - 1).toNat).find? (fun b => !isDigit b) with
        | none => exact absurd ((find_nondigit _).mp found) all
        | some b => rfl
    · rw [if_neg enough, if_neg fun both => enough both.1, List.drop_eq_nil_of_le (by omega)]
  · have none : (w - 1).toNat = 0 := by omega
    simp [wide, none, groupCount]

theorem disrsiFuel_ensures (fuel : Nat) (w : Int) (enough : bytes.length ≤ fuel) :
    (disrsiFuel fuel w).Ensures post failed bytes ↔
      Place.Fits (w, bytes) ∧ Place.Leads (w, bytes) post failed := by
  induction fuel generalizing w bytes with
  | zero =>
    cases List.length_eq_zero_iff.mp (Nat.le_zero.mp enough)
    rw [Place.last_spec rfl]
    simp [disrsiFuel, Place.announced, Place.finish]
  | succ fuel ih =>
    cases bytes with
    | nil =>
      rw [Place.last_spec rfl]
      simp [disrsiFuel, ensures_readByte, Place.announced, Place.finish]
    | cons b tail =>
      simp only [disrsiFuel, ensures_bind, ensures_readByte]
      simp only [List.length_cons, Nat.add_le_add_iff_right] at enough
      by_cases sign : isSign b
      · have last : Place.nextGroup (w, b :: tail) = none := by
          have : isCount b = false := by
            cases count : isCount b with
            | false => rfl
            | true => simp [isCount_not_sign count] at sign
          simp [Place.nextGroup, this]
        rw [if_pos sign, readDigits_ensures, Place.last_spec last]
        simp only [Place.announced, Place.finish, if_pos sign, Option.mem_some_iff, forall_eq']
        refine and_congr_right fun _ => ?_
        split
        · cases parseInt (tail.take w.toNat) <;> rfl
        · rfl
      · by_cases count : isCount b
        · rw [if_neg sign, if_pos count, ensures_bind, readGroup_ensures]
          have asks : (∀ n ∈ Place.announced (w, b :: tail), InRange UInt8 n) ↔
              (w > 1 → InRange UInt8 (w - 1)) := by
            by_cases wide : w > 1 <;> simp [Place.announced, sign, count, wide]
          split
          case isTrue whole =>
            have group : Place.nextGroup (w, b :: tail) =
                some (groupCount b (tail.take (w - 1).toNat), tail.drop (w - 1).toNat) := by
              simp only [Place.nextGroup, if_pos (And.intro count whole)]
            rw [Place.group_spec group, asks]
            refine and_congr_right fun _ => ih _ ?_
            rw [List.length_drop]
            omega
          case isFalse broken =>
            have last : Place.nextGroup (w, b :: tail) = none := by
              simp only [Place.nextGroup, if_neg fun all => broken (And.right all)]
            rw [Place.last_spec last, asks]
            simp [Place.finish, sign, count]
        · have last : Place.nextGroup (w, b :: tail) = none := by simp [Place.nextGroup, count]
          rw [if_neg sign, if_neg count, Place.last_spec last]
          simp only [Place.announced, Place.finish, sign, count]
          split <;> simp

/-- The code reads a numeral as its grammar does, and panics exactly when a group of
the numeral announces a width that cannot be allocated. -/
theorem disrsi_ensures (w : Int) :
    (disrsi w).Ensures post failed bytes ↔
      Place.Fits (w, bytes) ∧ Place.Leads (w, bytes) post failed :=
  disrsiFuel_ensures bytes.length w (Nat.le_refl _)

end Numerals

/-- An unsigned numeral: `post` after its value, `failed` after a malformed or negative
one. -/
def UintFits (post : Int → Bytes → Prop) (failed : Bytes → Prop) (bytes : Bytes) : Prop :=
  Place.Fits (1, bytes) ∧
    Place.Leads (1, bytes) (fun v rest => if v.2 then failed rest else post (uint64 v.1) rest) failed

/-- A counted string whose announced length is allocatable. -/
def StringFits (post : Bytes → Bytes → Prop) : Bytes → Prop :=
  UintFits (fun n rest => InRange UInt8 n ∧
    (n.toNat ≤ rest.length → post (rest.take n.toNat) (rest.drop n.toNat))) fun _ => True

def OptStringFits (post : Bytes → Prop) : Bytes → Prop :=
  UintFits (fun n rest => if n = 0 then post rest else StringFits (fun _ => post) rest)
    fun _ => True

/-- `size(uint), name(str), hasResc(uint), [resc(str)], value(str), op(uint)`. -/
def AttrFits (post : Bytes → Prop) : Bytes → Prop :=
  UintFits (fun _ => StringFits fun _ => OptStringFits <| StringFits fun _ =>
    UintFits (fun _ => post) fun _ => True) fun _ => True

def AttrsFit (post : Bytes → Prop) : Nat → Bytes → Prop
  | 0 => post
  | n + 1 => AttrFits (AttrsFit post n)

/-- An attribute list whose announced number of entries is allocatable. -/
def SvrAttrlFits (post : Bytes → Prop) : Bytes → Prop :=
  UintFits (fun n rest => InRange SvrAttrl n ∧ AttrsFit post n.toNat rest) fun _ => True

/-- Strings up to the end marker; a stream has at most as many as bytes. -/
def ItemsFit : Nat → Bytes → Prop
  | 0 => fun _ => True
  | fuel + 1 => StringFits fun s rest => s = endOfLine ∨ ItemsFit fuel rest

section Readers
variable {bytes : Bytes} {failed : Bytes → Prop}
open Decoder

theorem readUint_ensures (post : Int → Bytes → Prop) :
    readUint.Ensures post failed bytes ↔ UintFits post failed bytes := by
  simp only [readUint, context, ensures_bind, ensures_mapError, disrsi_ensures, UintFits]
  refine and_congr_right fun _ => forall₂_congr fun result rest => imp_congr_right fun _ => ?_
  cases result with
  | none => rfl
  | some v =>
    obtain ⟨val, negate⟩ := v
    cases negate <;> simp

theorem readInt_ensures (post : Int → Bytes → Prop) :
    readInt.Ensures post failed bytes ↔
      Place.Fits (1, bytes) ∧ Place.Leads (1, bytes)
        (fun v rest => post (if v.2 then wrap64 (-v.1) else v.1) rest) failed := by
  simp only [readInt, context, ensures_bind, ensures_mapError, disrsi_ensures, ensures_pure]

theorem uint64_nonneg (n : Int) : 0 ≤ uint64 n := Int.emod_nonneg n (by decide)

theorem UintFits.congr {post post' : Int → Bytes → Prop}
    (same : ∀ n rest, 0 ≤ n → (post n rest ↔ post' n rest)) :
    UintFits post failed bytes ↔ UintFits post' failed bytes := by
  refine and_congr_right fun _ => forall₂_congr fun result rest => imp_congr_right fun _ => ?_
  cases result with
  | none => rfl
  | some v =>
    simp only [Option.elim_some]
    split
    · rfl
    · exact same _ _ (uint64_nonneg _)

theorem readString_ensures (post : Bytes → Bytes → Prop) :
    readString.Ensures post (fun _ => True) bytes ↔ StringFits post bytes := by
  simp only [readString, context, ensures_bind, ensures_mapError, readUint_ensures, StringFits]
  refine UintFits.congr fun n rest _ => ?_
  by_cases empty : n = 0
  · subst n
    simp [InRange]
  · simp only [if_neg empty, make, readFull, ensures_bind, ensures_make, ensures_mapError,
      ensures_readFull, InRange]
    refine and_congr_right fun _ => ?_
    by_cases enough : n.toNat ≤ rest.length <;> simp [enough]

theorem readOptString_ensures (post : Bytes → Prop) :
    readReqExtend.Ensures (fun _ => post) (fun _ => True) bytes ↔ OptStringFits post bytes := by
  simp only [readReqExtend, ensures_bind, ensures_ite, ensures_pure, readUint_ensures,
    readString_ensures, OptStringFits]

theorem readAttr_ensures (i : Nat) (post : Bytes → Prop) :
    (readAttr i).Ensures (fun _ => post) (fun _ => True) bytes ↔ AttrFits post bytes := by
  simp only [readAttr, attrField, ensures_bind, ensures_mapError, ensures_ite, ensures_pure,
    readUint_ensures, readString_ensures, AttrFits, OptStringFits, ne_eq, ite_not]

theorem readAttrs_ensures (n i : Nat) (post : Bytes → Prop) :
    (readAttrs n i).Ensures (fun _ => post) (fun _ => True) bytes ↔ AttrsFit post n bytes := by
  induction n generalizing i bytes with
  | zero => rfl
  | succ n ih =>
    simp only [readAttrs, ensures_bind, ensures_pure, ih, readAttr_ensures]
    rfl

theorem readSvrAttrl_ensures (post : Bytes → Prop) :
    readSvrAttrl.Ensures (fun _ => post) (fun _ => True) bytes ↔ SvrAttrlFits post bytes := by
  simp only [readSvrAttrl, context, make, ensures_bind, ensures_mapError, readUint_ensures,
    ensures_make, readAttrs_ensures]
  rfl

theorem readItems_ensures (fuel : Nat) :
    (readItems fuel).Ensures (fun _ _ => True) (fun _ => True) bytes ↔ ItemsFit fuel bytes := by
  induction fuel generalizing bytes with
  | zero => rfl
  | succ fuel ih =>
    simp only [readItems, ensures_bind, ItemsFit, ← readString_ensures]
    rw [ensures_attempt]
    unfold Ensures
    cases readString bytes with
    | panic size => rfl
    | error e rest =>
      by_cases eof : e = .eof
      · simp only [if_pos eof]
        rfl
      · simp only [if_neg eof]
        rfl
    | value s rest =>
      simp only
      by_cases done : s = endOfLine
      · rw [if_pos done]
        exact iff_of_true trivial (.inl done)
      · rw [if_neg done, or_iff_right done, ← ih]
        exact ensures_bind _ _ _

end Readers

/-- The fields a format is made of: `diswui`, `diswsi`, `diswst`, an unsigned number
followed by an optional string, a reply choice with its string, `svrattrl`, a number
whose malformation is ignored, and strings up to the end marker. -/
inductive Field where
  | uint | int | string | optString | replyString | svrAttrl | ignoredUint | items
  deriving DecidableEq, Repr

/-- The sizes announced in one field are allocatable, and so are those that `post`
demands of what follows. -/
def Field.Fits (post : Bytes → Prop) : Field → Bytes → Prop
  | .uint => UintFits (fun _ => post) fun _ => True
  | .int => fun bytes =>
    Place.Fits (1, bytes) ∧ Place.Leads (1, bytes) (fun _ => post) fun _ => True
  | .string => StringFits fun _ => post
  | .optString => OptStringFits post
  | .replyString => UintFits (fun choice rest =>
      if replyCarriesText (wrap64 choice) then StringFits (fun _ => post) rest else post rest)
      fun _ => True
  | .svrAttrl => SvrAttrlFits post
  | .ignoredUint => UintFits (fun _ => post) post
  | .items => fun bytes => ItemsFit (bytes.length + 1) bytes

/-- Every size that `bytes` announces, read in the given format, is allocatable. -/
def AnnouncesFit : List Field → Bytes → Prop
  | [] => fun _ => True
  | field :: format => field.Fits (AnnouncesFit format)

/-- The exported readers of the package. -/
inductive Entry where
  | uint | int | string | svrAttrl | requestHeader | reqExtend | reply | jobObit | queueJobBody
  | jobScriptBody | commitBody | deleteJobBody | signalJobBody | statusBody | managerBody
  | holdJobBody | modifyJobBody | runJobBody | moveJobBody | locateJobBody | jobCredBody
  | isMessage
  deriving DecidableEq, Repr

/-- The documented format of each reader. -/
def Entry.format : Entry → List Field
  | .uint => [.uint]
  | .int => [.int]
  | .string | .commitBody | .locateJobBody => [.string]
  | .svrAttrl => [.svrAttrl]
  | .requestHeader => [.uint, .uint, .uint, .string]
  | .reqExtend => [.optString]
  | .reply => [.uint, .uint, .int, .int, .replyString]
  | .jobObit => [.string, .int, .svrAttrl]
  | .queueJobBody => [.string, .string, .svrAttrl]
  | .jobScriptBody => [.uint, .uint, .uint, .string, .string]
  | .deleteJobBody | .holdJobBody | .modifyJobBody =>
    [.ignoredUint, .ignoredUint, .string, .svrAttrl]
  | .signalJobBody | .runJobBody | .moveJobBody => [.string, .string]
  | .statusBody => [.string, .svrAttrl]
  | .managerBody => [.uint, .uint, .string, .svrAttrl]
  | .jobCredBody => [.uint, .string]
  | .isMessage => [.int, .int, .uint, .uint, .items]

def Ends (d : Reader α) (bytes : Bytes) : Prop :=
  (∃ a rest, d bytes = .value a rest) ∨ ∃ e rest, d bytes = .error e rest

def Entry.Ends (bytes : Bytes) : Entry → Prop
  | .uint => Dis.Ends readUint bytes
  | .int => Dis.Ends readInt bytes
  | .string => Dis.Ends readString bytes
  | .svrAttrl => Dis.Ends readSvrAttrl bytes
  | .requestHeader => Dis.Ends readRequestHeader bytes
  | .reqExtend => Dis.Ends readReqExtend bytes
  | .reply => Dis.Ends readReply bytes
  | .jobObit => Dis.Ends readJobObit bytes
  | .queueJobBody => Dis.Ends readQueueJobBody bytes
  | .jobScriptBody => Dis.Ends readJobScriptBody bytes
  | .commitBody => Dis.Ends readCommitBody bytes
  | .deleteJobBody => Dis.Ends readDeleteJobBody bytes
  | .signalJobBody => Dis.Ends readSignalJobBody bytes
  | .statusBody => Dis.Ends readStatusBody bytes
  | .managerBody => Dis.Ends readManagerBody bytes
  | .holdJobBody => Dis.Ends readHoldJobBody bytes
  | .modifyJobBody => Dis.Ends readModifyJobBody bytes
  | .runJobBody => Dis.Ends readRunJobBody bytes
  | .moveJobBody => Dis.Ends readMoveJobBody bytes
  | .locateJobBody => Dis.Ends readLocateJobBody bytes
  | .jobCredBody => Dis.Ends readJobCredBody bytes
  | .isMessage => Dis.Ends readISMessage bytes

section Entries
open Decoder

theorem readManageFormat_ensures :
    readManageFormat.Ensures (fun _ _ => True) (fun _ => True) bytes ↔
      AnnouncesFit (Entry.format .holdJobBody) bytes := by
  simp only [readManageFormat, ensures_bind, ensures_pure, readString_ensures,
    readSvrAttrl_ensures, ensures_attempt_ignored, readUint_ensures]
  rfl

/-- For every reader and every stream, reading ends with a value or an error exactly
when every digit group, string and attribute list of the stream, read in the
documented format, announces a size that `make` accepts. -/
theorem reader_ends_iff_announces_fit (entry : Entry) (bytes : Bytes) :
    entry.Ends bytes ↔ AnnouncesFit entry.format bytes := by
  cases entry with
  | uint => exact (ends_iff _ _).trans (readUint_ensures _)
  | int => exact (ends_iff _ _).trans (readInt_ensures _)
  | string | commitBody | locateJobBody => exact (ends_iff _ _).trans (readString_ensures _)
  | svrAttrl => exact (ends_iff _ _).trans (readSvrAttrl_ensures _)
  | reqExtend => exact (ends_iff _ _).trans (readOptString_ensures _)
  | holdJobBody | modifyJobBody => exact (ends_iff _ _).trans readManageFormat_ensures
  | deleteJobBody =>
    refine (ends_iff _ _).trans ?_
    simp only [readDeleteJobBody, ensures_bind, ensures_pure, readString_ensures,
      readSvrAttrl_ensures, ensures_attempt_ignored, readUint_ensures]
    rfl
  | isMessage =>
    refine (ends_iff _ _).trans ?_
    have items : ∀ rest, readItemList.Ensures (fun _ _ => True) (fun _ => True) rest ↔
        ItemsFit (rest.length + 1) rest := fun rest => readItems_ensures (rest.length + 1)
    simp only [readISMessage, context, ensures_bind, ensures_mapError, ensures_pure,
      readUint_ensures, readInt_ensures, items]
    rfl
  | requestHeader | reply | jobObit | queueJobBody | jobScriptBody | signalJobBody | statusBody
  | managerBody | runJobBody | moveJobBody | jobCredBody =>
    refine (ends_iff _ _).trans ?_
    simp only [readRequestHeader, readReply, readJobObit, readQueueJobBody, readJobScriptBody,
      readSignalJobBody, readStatusBody, readManagerBody, readRunJobBody, readMoveJobBody,
      readJobCredBody, context, ensures_bind, ensures_mapError, ensures_ite, ensures_pure,
      readUint_ensures, readInt_ensures, readString_ensures, readSvrAttrl_ensures]
    rfl

-- Attributes of 64 bytes each reach the bound long before bytes do.
example : readSvrAttrl (ascii "213+8796093022208") = .panic (2 ^ 43) := by decide +kernel

/-- A string of nineteen-digit length makes the server allocate `2 ^ 63 - 1` bytes. -/
theorem readString_panics :
    readString (ascii "219+9223372036854775807") = .panic (2 ^ 63 - 1) ∧
      ¬ Entry.Ends (ascii "219+9223372036854775807") .string := by
  have panics : readString (ascii "219+9223372036854775807") = .panic (2 ^ 63 - 1) := by
    decide +kernel
  refine ⟨panics, ?_⟩
  rintro (⟨a, rest, ended⟩ | ⟨e, rest, ended⟩) <;> rw [panics] at ended <;> cases ended

end Entries
end OpenTorque.Dis
