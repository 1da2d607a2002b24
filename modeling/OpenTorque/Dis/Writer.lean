import Mathlib.Data.Nat.Digits.Defs
import OpenTorque.Dis.Reader

/-! The DIS writers of the server, which the command-line client has in the same form,
and the readers of the client. The client's reader does not look at the digits of a
count group and puts no context around the failures of the primitive readers. -/
namespace OpenTorque.Dis
open Decoder (fail readByte)

def digitByte (d : Nat) : UInt8 := UInt8.ofNat (48 + d)

/-- `strconv.FormatUint(n, 10)` -/
def formatUint (n : Nat) : Bytes := if n = 0 then [48] else (Nat.digits 10 n).reverse.map digitByte

/-- `strconv.FormatInt(n, 10)` -/
def formatInt (n : Int) : Bytes := if n < 0 then 45 :: formatUint n.natAbs else formatUint n.natAbs

/-- The loop over the counts: each turn writes the number of digits in front of them. A
count has fewer digits than it counts, so the first count is enough fuel. -/
def countChain : Nat → Nat → Bytes → Bytes
  | 0, _, front => front
  | fuel + 1, ndigs, front =>
    if 1 < ndigs then
      let countStr := formatUint ndigs
      countChain fuel countStr.length (countStr ++ front)
    else front

def countPrefix (ndigs : Nat) (sign : UInt8) : Bytes := countChain ndigs ndigs [sign]

def writeUint (val : Nat) : Bytes :=
  let digits := formatUint val
  countPrefix digits.length 43 ++ digits

/-- The smallest number is its own negation, and its digits come with a sign. -/
def writeInt (val : Int) : Bytes :=
  let sign : UInt8 := if val < 0 then 45 else 43
  let val := if val < 0 then wrap64 (-val) else val
  let digits := formatInt val
  countPrefix digits.length sign ++ digits

def writeString (s : Bytes) : Bytes := writeUint s.length ++ s

/-- A number of type `int` that is written as `uint64`. -/
def writeCast (n : Int) : Bytes := writeUint (uint64 n).toNat

/-- The size field, which no reader uses. -/
def SvrAttrl.size (a : SvrAttrl) : Nat :=
  a.name.length + a.value.length + 2 + if a.hasResc then a.resc.length + 1 else 0

def writeAttr (a : SvrAttrl) : Bytes :=
  writeUint a.size ++ (writeString a.name ++
    ((if a.hasResc then writeUint 1 ++ writeString a.resc else writeUint 0) ++
      (writeString a.value ++ writeCast a.op)))

def writeSvrAttrl (attrs : List SvrAttrl) : Bytes := writeUint attrs.length ++ attrs.flatMap writeAttr

structure StatusObject where
  type : Int
  name : Bytes
  attrs : List SvrAttrl
  deriving DecidableEq, Repr

-- A number, a string of 16 bytes and a slice of 24.
instance : Sized StatusObject := ⟨48⟩

def writeStatusObject (obj : StatusObject) : Bytes :=
  writeCast obj.type ++ (writeString obj.name ++ writeSvrAttrl obj.attrs)

def pbsBatchProtType : Nat := 2
def pbsBatchProtVer : Nat := 2
def pbsErrNone : Int := 0
def replyChoiceStatus : Nat := 6

def writeStatusReply (objects : List StatusObject) : Bytes :=
  writeUint pbsBatchProtType ++ (writeUint pbsBatchProtVer ++ (writeInt pbsErrNone ++ (writeInt 0 ++
    (writeUint replyChoiceStatus ++ (writeUint objects.length ++ objects.flatMap writeStatusObject)))))

namespace Client

/-- `int(b-'0')`: the subtraction is one of bytes. -/
def digitOf (b : UInt8) : Int := (b - 48).toNat

def readGroup (count : Int) (first : UInt8) : Reader Int := do
  if count > 1 then
    make UInt8 (count - 1)
    let buf ← readFull (count - 1)
    pure (buf.foldl (fun n b => wrap64 (10 * n + digitOf b)) (digitOf first))
  else pure (digitOf first)

def disrsiFuel : Nat → Int → Reader (Int × Bool)
  | 0, _ => fail .eof
  | fuel + 1, count => do
    let c ← readByte .eof
    if isSign c then readDigits count (isMinus c)
    else if isCount c then
      let ndigs ← readGroup count c
      disrsiFuel fuel ndigs
    else if c = 48 then fail .leadingZero
    else fail (.unexpectedByte c)

def disrsi (count : Int) : Reader (Int × Bool) := fun bytes => disrsiFuel bytes.length count bytes

def readUint : Reader Int := do
  let (val, negate) ← disrsi 1
  if negate then fail (.context "dis: ReadUint" .unexpectedNegative) else pure (uint64 val)

def readInt : Reader Int := do
  let (val, negate) ← disrsi 1
  pure (if negate then wrap64 (-val) else val)

def readString : Reader Bytes := do
  let length ← readUint
  if length = 0 then pure []
  else
    make UInt8 length
    readFull length

def readAttr : Reader SvrAttrl := do
  let _ ← readUint
  let name ← readString
  let hasResc ← readUint
  let resc ← if hasResc ≠ 0 then readString else pure []
  let value ← readString
  let op ← readUint
  pure ⟨name, hasResc ≠ 0, resc, value, wrap64 op⟩

def readAttrs : Nat → Reader (List SvrAttrl)
  | 0 => pure []
  | n + 1 => do
    let attr ← readAttr
    let attrs ← readAttrs n
    pure (attr :: attrs)

def readSvrAttrl : Reader (List SvrAttrl) := do
  let count ← readUint
  make SvrAttrl count
  readAttrs count.toNat

/-- A failure of a call of the client: a reader's, with the context the call puts around
it, or a reply that it does not expect. -/
inductive ReplyError where
  | read (cause : DisError)
  | context (message : String) (cause : DisError)
  | object (index : Nat) (field : String) (cause : DisError)
  | server (code : Int)
  | unexpectedChoice (choice : Int)
  deriving DecidableEq, Repr

def readObject (i : Nat) : Decoder ReplyError StatusObject := do
  let objType ← readUint.mapError (.object i "type")
  let name ← readString.mapError (.object i "name")
  let attrs ← readSvrAttrl.mapError (.object i "attrs")
  pure ⟨wrap64 objType, name, attrs⟩

def readObjects : Nat → Nat → Decoder ReplyError (List StatusObject)
  | 0, _ => pure []
  | n + 1, i => do
    let obj ← readObject i
    let objects ← readObjects n (i + 1)
    pure (obj :: objects)

def readStatusReply : Decoder ReplyError (List StatusObject) := do
  let _ ← readUint.mapError .read
  let _ ← readUint.mapError .read
  let code ← readInt.mapError .read
  let _ ← readInt.mapError .read
  let choice ← readUint.mapError .read
  if code ≠ 0 then fail (.server code)
  else if wrap64 choice ≠ replyChoiceStatus then fail (.unexpectedChoice choice)
  else
    let count ← readUint.mapError (.context "read status count")
    Decoder.make (makeBound StatusObject) count
    readObjects count.toNat 0

end Client

end OpenTorque.Dis
