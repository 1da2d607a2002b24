import Mathlib.Logic.Basic
import Mathlib.Data.List.Basic

/-! Decoders of byte streams that may fail and that allocate buffers whose size is
taken from the stream. An allocation outside the bound ends the program; a failure
leaves the stream where reading stopped, so that a caller may go on. The
precondition rules describe a decoder by what it guarantees on success and on
failure when no allocation is out of bounds; the rules for `Decodes` compose round
trips. -/
namespace OpenTorque

abbrev Bytes := List UInt8

def ascii (s : String) : Bytes := s.toList.map fun c => UInt8.ofNat c.toNat

inductive Outcome (ε α : Type) where
  | value (a : α) (rest : Bytes)
  | error (e : ε) (rest : Bytes)
  | panic (size : Int)
  deriving DecidableEq, Repr

def Decoder (ε α : Type) := Bytes → Outcome ε α

namespace Decoder
variable {ε ε' α β : Type}

def bind (d : Decoder ε α) (f : α → Decoder ε β) : Decoder ε β := fun bytes =>
  match d bytes with
  | .value a rest => f a rest
  | .error e rest => .error e rest
  | .panic size => .panic size

instance : Monad (Decoder ε) where
  pure a := fun bytes => .value a bytes
  bind := bind

def fail (e : ε) : Decoder ε α := fun bytes => .error e bytes

def mapError (f : ε → ε') (d : Decoder ε α) : Decoder ε' α := fun bytes =>
  match d bytes with
  | .value a rest => .value a rest
  | .error e rest => .error (f e) rest
  | .panic size => .panic size

/-- Run a decoder and turn its failure into a value, as a caller that looks at or
ignores an error does. -/
def attempt (d : Decoder ε α) : Decoder ε' (Except ε α) := fun bytes =>
  match d bytes with
  | .value a rest => .value (.ok a) rest
  | .error e rest => .value (.error e) rest
  | .panic size => .panic size

def make (bound size : Int) : Decoder ε Unit := fun bytes =>
  if 0 ≤ size ∧ size < bound then .value () bytes else .panic size

def readByte (eof : ε) : Decoder ε UInt8
  | [] => .error eof []
  | b :: rest => .value b rest

/-- Fill a buffer of `n` bytes; a stream that ends early is consumed. -/
def readFull (eof unexpectedEOF : ε) (n : Nat) : Decoder ε Bytes := fun bytes =>
  if n ≤ bytes.length then .value (bytes.take n) (bytes.drop n)
  else .error (if bytes.isEmpty then eof else unexpectedEOF) []

/-- No allocation of `d` is out of bounds on `bytes`; a value leads to `post` and a
failure to `failed`. -/
def Ensures (d : Decoder ε α) (post : α → Bytes → Prop) (failed : Bytes → Prop) (bytes : Bytes) :
    Prop :=
  match d bytes with
  | .value a rest => post a rest
  | .error _ rest => failed rest
  | .panic _ => False

variable {post : α → Bytes → Prop} {failed : Bytes → Prop} {bytes : Bytes}

@[simp] theorem ensures_pure (a : α) :
    (Pure.pure a : Decoder ε α).Ensures post failed bytes ↔ post a bytes := Iff.rfl

@[simp] theorem ensures_bind (d : Decoder ε α) (f : α → Decoder ε β)
    (post : β → Bytes → Prop) :
    (d >>= f).Ensures post failed bytes ↔
      d.Ensures (fun a rest => (f a).Ensures post failed rest) failed bytes := by
  simp only [Bind.bind, bind, Ensures]
  cases d bytes <;> rfl

@[simp] theorem ensures_fail (e : ε) :
    (fail e : Decoder ε α).Ensures post failed bytes ↔ failed bytes := Iff.rfl

@[simp] theorem ensures_ite (c : Prop) [Decidable c] (d e : Decoder ε α) :
    (if c then d else e).Ensures post failed bytes ↔
      if c then d.Ensures post failed bytes else e.Ensures post failed bytes := by
  split <;> rfl

@[simp] theorem ensures_mapError (f : ε → ε') (d : Decoder ε α) :
    (d.mapError f).Ensures post failed bytes ↔ d.Ensures post failed bytes := by
  simp only [mapError, Ensures]
  cases d bytes <;> rfl

theorem ensures_attempt (d : Decoder ε α) (post : Except ε α → Bytes → Prop) :
    (d.attempt : Decoder ε' _).Ensures post failed bytes ↔
      match d bytes with
      | .value a rest => post (.ok a) rest
      | .error e rest => post (.error e) rest
      | .panic _ => False := by
  simp only [attempt, Ensures]
  cases d bytes <;> rfl

/-- A caller that ignores a failure goes on from wherever reading stopped. -/
theorem ensures_attempt_ignored (d : Decoder ε α) (post : Bytes → Prop) :
    (d.attempt : Decoder ε' _).Ensures (fun _ rest => post rest) failed bytes ↔
      d.Ensures (fun _ rest => post rest) post bytes := by
  simp only [attempt, Ensures]
  cases d bytes <;> rfl

@[simp] theorem ensures_make (bound size : Int) (post : Unit → Bytes → Prop) :
    (make bound size : Decoder ε Unit).Ensures post failed bytes ↔
      (0 ≤ size ∧ size < bound) ∧ post () bytes := by
  by_cases fits : 0 ≤ size ∧ size < bound
  · simp only [make, Ensures, if_pos fits]
    exact (and_iff_right fits).symm
  · simp only [make, Ensures, if_neg fits]
    exact ⟨False.elim, fun both => fits both.1⟩

theorem ensures_readByte (eof : ε) (post : UInt8 → Bytes → Prop) :
    (readByte eof).Ensures post failed bytes ↔
      match bytes with
      | [] => failed []
      | b :: rest => post b rest := by
  cases bytes <;> rfl

theorem ensures_readFull (eof unexpectedEOF : ε) (n : Nat) (post : Bytes → Bytes → Prop) :
    (readFull eof unexpectedEOF n).Ensures post failed bytes ↔
      if n ≤ bytes.length then post (bytes.take n) (bytes.drop n) else failed [] := by
  by_cases enough : n ≤ bytes.length
  · simp only [readFull, Ensures, if_pos enough]
  · simp only [readFull, Ensures, if_neg enough]

/-- A decoder ends with a value or a failure exactly when it needs no allocation out
of bounds. -/
theorem ends_iff (d : Decoder ε α) (bytes : Bytes) :
    ((∃ a rest, d bytes = .value a rest) ∨ ∃ e rest, d bytes = .error e rest) ↔
      d.Ensures (fun _ _ => True) (fun _ => True) bytes := by
  simp only [Ensures]
  cases d bytes <;> simp

theorem eq_value_iff (d : Decoder ε α) (bytes rest : Bytes) (a : α) :
    d bytes = .value a rest ↔
      d.Ensures (fun a' rest' => a' = a ∧ rest' = rest) (fun _ => False) bytes := by
  simp only [Ensures]
  cases d bytes <;> simp

/-- `d` reads exactly `encoded` as `a`, whatever comes after it. -/
def Decodes (d : Decoder ε α) (encoded : Bytes) (a : α) : Prop :=
  ∀ rest, d (encoded ++ rest) = .value a rest

namespace Decodes
variable {d : Decoder ε α} {f : α → Decoder ε β} {encoded more : Bytes} {a : α} {b : β}

theorem pure (a : α) : (Pure.pure a : Decoder ε α).Decodes [] a := fun _ => rfl

theorem bind (first : d.Decodes encoded a) (next : (f a).Decodes more b) :
    (d >>= f).Decodes (encoded ++ more) b := by
  intro rest
  have read := first (more ++ rest)
  rw [← List.append_assoc] at read
  simp only [Bind.bind, Decoder.bind, read]
  exact next rest

theorem bind_pure (first : d.Decodes encoded a) (g : α → β) :
    (d >>= fun a => Pure.pure (g a)).Decodes encoded (g a) := by
  have whole := first.bind (f := fun a => Pure.pure (g a)) (.pure (g a))
  rwa [List.append_nil] at whole

theorem mapError (g : ε → ε') (decodes : d.Decodes encoded a) : (d.mapError g).Decodes encoded a := by
  intro rest
  rw [Decoder.mapError, decodes rest]

theorem attempt (decodes : d.Decodes encoded a) :
    (d.attempt : Decoder ε' _).Decodes encoded (.ok a) := by
  intro rest
  rw [Decoder.attempt, decodes rest]

theorem make {bound size : Int} (fits : 0 ≤ size ∧ size < bound) :
    (Decoder.make bound size : Decoder ε Unit).Decodes [] () := fun _ => if_pos fits

theorem readFull {eof unexpectedEOF : ε} {n : Nat} (length : encoded.length = n) :
    (Decoder.readFull eof unexpectedEOF n).Decodes encoded encoded := by
  intro rest
  rw [Decoder.readFull, if_pos (by simp [length]), List.take_left' length, List.drop_left' length]

theorem ensures (decodes : d.Decodes encoded a) {post : α → Bytes → Prop} {failed : Bytes → Prop}
    {rest : Bytes} : d.Ensures post failed (encoded ++ rest) ↔ post a rest := by
  rw [Ensures, decodes rest]

end Decodes

theorem decodes_iff {d : Decoder ε α} {encoded : Bytes} {a : α} : d.Decodes encoded a ↔
    ∀ rest, d.Ensures (fun a' rest' => a' = a ∧ rest' = rest) (fun _ => False) (encoded ++ rest) :=
  forall_congr' fun _ => eq_value_iff ..

/-- `e` accepts whatever `d` accepts, as the same value. -/
def Extends (e : Decoder ε' α) (d : Decoder ε α) : Prop :=
  ∀ bytes a rest, d bytes = .value a rest → e bytes = .value a rest

namespace Extends
variable {e : Decoder ε' α} {d : Decoder ε α}

theorem refl (d : Decoder ε α) : d.Extends d := fun _ _ _ read => read

theorem bind {f : α → Decoder ε' β} {g : α → Decoder ε β} (first : e.Extends d)
    (next : ∀ a, (f a).Extends (g a)) : (e >>= f).Extends (d >>= g) := by
  intro bytes b rest read
  simp only [Bind.bind, Decoder.bind] at read ⊢
  cases here : d bytes with
  | value a between =>
    rw [here] at read
    rw [first bytes a between here]
    exact next a between b rest read
  | error | panic =>
    rw [here] at read
    cases read

theorem mapError (g : ε → ε'') (wider : e.Extends d) : e.Extends (d.mapError g) := by
  intro bytes a rest read
  rw [Decoder.mapError] at read
  cases here : d bytes with
  | value a' rest' =>
    rw [here] at read
    cases read
    exact wider bytes a rest here
  | error | panic =>
    rw [here] at read
    cases read

theorem ite {c : Prop} [Decidable c] {e' : Decoder ε' α} {d' : Decoder ε α} (first : e.Extends d)
    (second : e'.Extends d') : (if c then e else e').Extends (if c then d else d') := by
  split
  · exact first
  · exact second

theorem fail (f : ε) : e.Extends (Decoder.fail f) := fun _ _ _ read => nomatch read

end Extends

theorem Decodes.extends {e : Decoder ε' α} {d : Decoder ε α} {encoded : Bytes} {a : α}
    (wider : e.Extends d) (decodes : d.Decodes encoded a) : e.Decodes encoded a :=
  fun rest => wider _ a rest (decodes rest)

/-- A value depends only on the bytes that have been read for it. -/
def Local (d : Decoder ε α) : Prop :=
  ∀ bytes a rest, d bytes = .value a rest → ∃ used, bytes = used ++ rest ∧ d.Decodes used a

namespace Local
variable {d : Decoder ε α} {f : α → Decoder ε β}

theorem pure (a : α) : (Pure.pure a : Decoder ε α).Local := by
  intro bytes a' rest read
  cases read
  exact ⟨[], rfl, .pure a⟩

theorem fail (e : ε) : (Decoder.fail e : Decoder ε α).Local := fun _ _ _ read => nomatch read

theorem bind (first : d.Local) (next : ∀ a, (f a).Local) : (d >>= f).Local := by
  intro bytes b rest read
  simp only [Bind.bind, Decoder.bind] at read
  cases here : d bytes with
  | value a between =>
    rw [here] at read
    obtain ⟨used, rfl, decodes⟩ := first bytes a between here
    obtain ⟨more, rfl, last⟩ := next a between b rest read
    exact ⟨used ++ more, (List.append_assoc ..).symm, decodes.bind last⟩
  | error | panic =>
    rw [here] at read
    cases read

theorem mapError (g : ε → ε') (first : d.Local) : (d.mapError g).Local := by
  intro bytes a rest read
  rw [Decoder.mapError] at read
  cases here : d bytes with
  | value a' rest' =>
    rw [here] at read
    cases read
    obtain ⟨used, same, decodes⟩ := first bytes a rest here
    exact ⟨used, same, decodes.mapError g⟩
  | error | panic =>
    rw [here] at read
    cases read

theorem ite {c : Prop} [Decidable c] {e : Decoder ε α} (first : d.Local) (second : e.Local) :
    (if c then d else e).Local := by
  split
  · exact first
  · exact second

theorem make (bound size : Int) : (Decoder.make bound size : Decoder ε Unit).Local := by
  intro bytes a rest read
  rw [Decoder.make] at read
  split at read
  case isTrue fits =>
    cases read
    exact ⟨[], rfl, .make fits⟩
  case isFalse => cases read

theorem readByte (eof : ε) : (Decoder.readByte eof).Local := by
  intro bytes b rest read
  cases bytes with
  | nil => cases read
  | cons b bytes =>
    cases read
    exact ⟨[b], rfl, fun _ => rfl⟩

theorem readFull (eof unexpectedEOF : ε) (n : Nat) : (Decoder.readFull eof unexpectedEOF n).Local := by
  intro bytes a rest read
  rw [Decoder.readFull] at read
  split at read
  case isTrue enough =>
    cases read
    exact ⟨bytes.take n, (List.take_append_drop ..).symm, .readFull (List.length_take_of_le enough)⟩
  case isFalse => cases read

end Local

end Decoder
end OpenTorque
