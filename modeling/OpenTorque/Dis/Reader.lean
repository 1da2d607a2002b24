import Mathlib.Algebra.Order.Ring.Int
import OpenTorque.Core.Decoder

/-! The DIS readers of the server: numerals with their recursive count chain, counted
strings, attribute lists and the body of every request. `int`, `int64` and `uint64`
are 64 bits wide. -/
namespace OpenTorque.Dis
open Decoder (fail readByte)

/-- A failure of a reader with the contexts its callers wrap around it. -/
inductive DisError where
  | eof
  | unexpectedEOF
  | parseDigits (buf : Bytes)
  | nonDigit (b : UInt8)
  | leadingZero
  | unexpectedByte (b : UInt8)
  | unexpectedNegative
  | context (message : String) (cause : DisError)
  | attr (index : Nat) (field : String) (cause : DisError)
  deriving DecidableEq, Repr

abbrev Reader := Decoder DisError

/-- The bytes that a value takes in a slice. -/
class Sized (α : Type) where
  bytes : Int

instance : Sized UInt8 := ⟨1⟩

/-- Go's `make` panics on a negative length and on one of this size or more: a length has
at most 47 bits, and the elements together take at most `2 ^ 48` bytes. -/
def makeBound (α : Type) [Sized α] : Int := min (2 ^ 47) (2 ^ 48 / Sized.bytes α + 1)

@[simp] theorem makeBound_byte : makeBound UInt8 = 2 ^ 47 := rfl

theorem makeBound_le (α : Type) [Sized α] : makeBound α ≤ 2 ^ 47 := min_le_left _ _

def make (α : Type) [Sized α] (size : Int) : Reader Unit := Decoder.make (makeBound α) size

def context (message : String) (d : Reader α) : Reader α := d.mapError (.context message)

def isDigit (b : UInt8) : Bool := 48 ≤ b && b ≤ 57
def isCount (b : UInt8) : Bool := 49 ≤ b && b ≤ 57
def isSign (b : UInt8) : Bool := b == 43 || b == 45
def isMinus (b : UInt8) : Bool := b == 45

def digit (b : UInt8) : Int := (b.toNat : Int) - 48

/-- Two's-complement wrap-around of a 64-bit signed integer. -/
def wrap64 (n : Int) : Int := Int.bmod n (2 ^ 64)

def uint64 (n : Int) : Int := n % 2 ^ 64

def decimal (digits : Bytes) : Int := digits.foldl (fun n b => 10 * n + digit b) 0

/-- `strconv.ParseInt(s, 10, 64)`: an optional sign and digits, within range. -/
def parseInt (buf : Bytes) : Option Int :=
  let negative := buf.head?.any isMinus
  let digits := if buf.head?.any isSign then buf.tail else buf
  if digits.isEmpty || !digits.all isDigit then none
  else
    let n := decimal digits
    if negative then (if n ≤ 2 ^ 63 then some (-n) else none)
    else if n < 2 ^ 63 then some n else none

/-- The count that a group of digits spells, in 64-bit arithmetic. -/
def groupCount (first : UInt8) (more : Bytes) : Int :=
  more.foldl (fun n b => wrap64 (10 * n + digit b)) (digit first)

def readFull (n : Int) : Reader Bytes := Decoder.readFull .eof .unexpectedEOF n.toNat

def readDigits (count : Int) (negate : Bool) : Reader (Int × Bool) := do
  make UInt8 count
  let buf ← readFull count
  match parseInt buf with
  | none => fail (.parseDigits buf)
  | some val => pure (val, negate)

/-- The rest of a count group after its first digit; a group of one has none. -/
def readGroup (count : Int) (first : UInt8) : Reader Int := do
  if count > 1 then
    make UInt8 (count - 1)
    let buf ← readFull (count - 1)
    match buf.find? (fun b => !isDigit b) with
    | some b => fail (.nonDigit b)
    | none => pure (groupCount first buf)
  else pure (digit first)

/-- Every level of the chain reads at least one byte, so the length of the stream is
enough fuel and running out of it is the end of the stream. -/
def disrsiFuel : Nat → Int → Reader (Int × Bool)
  | 0, _ => fail .eof
  | fuel + 1, count => do
    let c ← readByte .eof
    if isSign c then readDigits count (isMinus c)
    else if isCount c then
      let ndigs ← readGroup count c
      disrsiFuel fuel ndigs
    else if c = 48 then fail .leadingZero
    else fail (.unexpectedByte c)

def disrsi (count : Int) : Reader (Int × Bool) := fun bytes => disrsiFuel bytes.length count bytes

def readUint : Reader Int := do
  let (val, negate) ← context "dis: ReadUint" (disrsi 1)
  if negate then fail (.context "dis: ReadUint" .unexpectedNegative) else pure (uint64 val)

def readInt : Reader Int := do
  let (val, negate) ← context "dis: ReadInt" (disrsi 1)
  pure (if negate then wrap64 (-val) else val)

def readString : Reader Bytes := do
  let length ← context "dis: ReadString length" readUint
  if length = 0 then pure []
  else
    make UInt8 length
    context "dis: ReadString data" (readFull length)

def readReqExtend : Reader Bytes := do
  let hasExt ← readUint
  if hasExt = 0 then pure [] else readString

structure SvrAttrl where
  name : Bytes
  hasResc : Bool
  resc : Bytes
  value : Bytes
  op : Int
  deriving DecidableEq, Repr

-- Three strings of 16 bytes each, a flag that is padded to 8, and a number.
instance : Sized SvrAttrl := ⟨64⟩

def attrField (i : Nat) (field : String) (d : Reader α) : Reader α := d.mapError (.attr i field)

def readAttr (i : Nat) : Reader SvrAttrl := do
  let _ ← attrField i "size" readUint
  let name ← attrField i "name" readString
  let hasResc ← attrField i "hasResc" readUint
  let resc ← if hasResc ≠ 0 then attrField i "resc" readString else pure []
  let value ← attrField i "value" readString
  let op ← attrField i "op" readUint
  pure ⟨name, hasResc ≠ 0, resc, value, wrap64 op⟩

def readAttrs : Nat → Nat → Reader (List SvrAttrl)
  | 0, _ => pure []
  | n + 1, i => do
    let attr ← readAttr i
    let attrs ← readAttrs n (i + 1)
    pure (attr :: attrs)

def readSvrAttrl : Reader (List SvrAttrl) := do
  let count ← context "read attr count" readUint
  make SvrAttrl count
  readAttrs count.toNat 0

structure RequestHeader where
  protocol : Int
  version : Int
  reqType : Int
  user : Bytes

def readRequestHeader : Reader RequestHeader := do
  let proto ← context "read proto" readUint
  let ver ← context "read version" readUint
  let reqType ← context "read reqtype" readUint
  let user ← context "read user" readString
  pure ⟨wrap64 proto, wrap64 ver, wrap64 reqType, user⟩

/-- The reply choices that carry a string: queue, ready-to-commit, commit, text. -/
def replyCarriesText (choice : Int) : Bool :=
  choice = 2 || choice = 3 || choice = 4 || choice = 7

structure Reply where
  code : Int
  auxCode : Int
  choice : Int
  data : Bytes

def readReply : Reader Reply := do
  let _ ← context "read reply proto" readUint
  let _ ← context "read reply ver" readUint
  let code ← context "read reply code" readInt
  let aux ← context "read reply auxcode" readInt
  let choice ← context "read reply choice" readUint
  let data ← if replyCarriesText (wrap64 choice) then readString else pure []
  pure ⟨code, aux, wrap64 choice, data⟩

def readJobObit : Reader (Bytes × Int × List SvrAttrl) := do
  let jobID ← context "read obit jobid" readString
  let exitStatus ← context "read obit exit status" readInt
  let attrs ← context "read obit attrs" readSvrAttrl
  pure (jobID, exitStatus, attrs)

def readQueueJobBody : Reader (Bytes × Bytes × List SvrAttrl) := do
  let jobID ← context "read queuejob id" readString
  let dest ← context "read queuejob dest" readString
  let attrs ← context "read queuejob attrs" readSvrAttrl
  pure (jobID, dest, attrs)

def readJobScriptBody : Reader (Bytes × Bytes) := do
  let _seq ← readUint
  let _type ← readUint
  let _size ← readUint
  let jobID ← readString
  let scriptData ← readString
  pure (jobID, scriptData)

def readCommitBody : Reader Bytes := readString

/-- The results of the first two and of the last read are ignored. -/
def readDeleteJobBody : Reader Bytes := do
  let _ ← readUint.attempt
  let _ ← readUint.attempt
  let jobID ← readString
  let _ ← readSvrAttrl.attempt
  pure jobID

def readSignalJobBody : Reader (Bytes × Bytes) := do
  let jobID ← readString
  let signal ← readString
  pure (jobID, signal)

def readStatusBody : Reader (Bytes × List SvrAttrl) := do
  let id ← readString
  let queryAttrs ← readSvrAttrl
  pure (id, queryAttrs)

def readManagerBody : Reader (Int × Int × Bytes × List SvrAttrl) := do
  let command ← readUint
  let objType ← readUint
  let objName ← readString
  let attrs ← readSvrAttrl
  pure (wrap64 command, wrap64 objType, objName, attrs)

/-- The body of the Manage format, whose first two numbers may be malformed. -/
def readManageFormat : Reader (Bytes × List SvrAttrl) := do
  let _ ← readUint.attempt
  let _ ← readUint.attempt
  let jobID ← readString
  let attrs ← readSvrAttrl
  pure (jobID, attrs)

def readHoldJobBody : Reader (Bytes × List SvrAttrl) := readManageFormat

def readModifyJobBody : Reader (Bytes × List SvrAttrl) := readManageFormat

def readRunJobBody : Reader (Bytes × Bytes) := do
  let jobID ← readString
  let dest ← readString
  pure (jobID, dest)

def readMoveJobBody : Reader (Bytes × Bytes) := do
  let jobID ← readString
  let dest ← readString
  pure (jobID, dest)

def readLocateJobBody : Reader Bytes := readString

def readJobCredBody : Reader (Int × Bytes) := do
  let credType ← readUint
  let credData ← readString
  pure (wrap64 credType, credData)

structure ISMessage where
  version : Int
  command : Int
  momPort : Int
  rmPort : Int
  items : List Bytes

def endOfLine : Bytes := ascii "END_OF_LINE"

/-- Every item reads at least one byte of the stream. -/
def readItems : Nat → Reader (List Bytes)
  | 0 => pure []
  | fuel + 1 => do
    match ← readString.attempt with
    | .error e => if e = .eof then pure [] else fail (.context "read IS item" e)
    | .ok s =>
      if s = endOfLine then pure []
      else
        let items ← readItems fuel
        pure (s :: items)

def readItemList : Reader (List Bytes) := fun bytes => readItems (bytes.length + 1) bytes

def readISMessage : Reader ISMessage := do
  let ver ← context "read IS version" readInt
  let cmd ← context "read IS command" readInt
  let momPort ← context "read IS mom_port" readUint
  let rmPort ← context "read IS rm_port" readUint
  let items ← readItemList
  pure ⟨ver, cmd, wrap64 momPort, wrap64 rmPort, items⟩

end OpenTorque.Dis
