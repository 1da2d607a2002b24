import OpenTorque.Dis.RoundTrip

/-! Requests that the client writes one after another on a connection and the loop of the
server that reads them. The client ends every request with a string; the server reads a
number there and a string only if the number is not zero. The two agree on the empty
string. -/
namespace OpenTorque.Dis
open Decoder

/-! ### What a reader has used -/

section Local

theorem disrsiFuel_local (fuel : Nat) (count : Int) : (disrsiFuel fuel count).Local := by
  induction fuel generalizing count with
  | zero => exact .fail _
  | succ fuel ih =>
    refine .bind (.readByte _) fun c => .ite ?_ (.ite ?_ (.ite (.fail _) (.fail _)))
    · refine .bind (.make _ _) fun _ => .bind (.readFull _ _ _) fun buf => ?_
      split
      · exact .fail _
      · exact .pure _
    · refine .bind (.ite ?_ (.pure _)) fun ndigs => ih ndigs
      refine .bind (.make _ _) fun _ => .bind (.readFull _ _ _) fun buf => ?_
      split
      · exact .fail _
      · exact .pure _

theorem disrsiFuel_extends (fuel more : Nat) (count : Int) :
    (disrsiFuel (fuel + more) count).Extends (disrsiFuel fuel count) := by
  induction fuel generalizing count with
  | zero => exact .fail _
  | succ fuel ih =>
    rw [Nat.succ_add]
    exact .bind (.refl _) fun c => .ite (.refl _)
      (.ite (.bind (.refl _) fun ndigs => ih ndigs) (.refl _))

theorem disrsi_local (count : Int) : (disrsi count).Local := by
  intro bytes a rest read
  obtain ⟨used, same, decodes⟩ := disrsiFuel_local bytes.length count bytes a rest read
  refine ⟨used, same, fun rest' => ?_⟩
  -- more fuel than the stream has bytes makes no difference
  have enough := disrsiFuel_extends bytes.length (used ++ rest').length count _ a rest' (decodes rest')
  rw [eq_value_iff, disrsiFuel_ensures _ _ (by omega)] at enough
  rw [eq_value_iff, disrsi_ensures]
  exact enough

theorem readUint_local : readUint.Local := by
  refine .bind (.mapError _ (disrsi_local 1)) fun value => ?_
  obtain ⟨val, negate⟩ := value
  exact .ite (.fail _) (.pure _)

theorem readString_local : readString.Local :=
  .bind (.mapError _ readUint_local) fun _ =>
    .ite (.pure _) (.bind (.make _ _) fun _ => .mapError _ (.readFull _ _ _))

end Local

/-! ### The loop of the server -/

/-- The request types that the server handles. -/
inductive ReqType where
  | connect | queueJob | jobCred | jobScript | rdytoCommit | commit | deleteJob | holdJob
  | locateJob | manager | messJob | modifyJob | moveJob | releaseJob | rerun | runJob
  | selectJobs | shutdown | signalJob | statusJob | statusQueue | statusServer | checkpointJob
  | queueJob2 | commit2 | jobScript2 | authenUser | orderJob | jobObit | statusNode
  | disconnect | altAuthenUser | authToken
  deriving DecidableEq, Repr

namespace ReqType

def code : ReqType → Nat
  | connect => 0
  | queueJob => 1
  | jobCred => 2
  | jobScript => 3
  | rdytoCommit => 4
  | commit => 5
  | deleteJob => 6
  | holdJob => 7
  | locateJob => 8
  | manager => 9
  | messJob => 10
  | modifyJob => 11
  | moveJob => 12
  | releaseJob => 13
  | rerun => 14
  | runJob => 15
  | selectJobs => 16
  | shutdown => 17
  | signalJob => 18
  | statusJob => 19
  | statusQueue => 20
  | statusServer => 21
  | checkpointJob => 27
  | queueJob2 => 29
  | commit2 => 30
  | jobScript2 => 31
  | authenUser => 49
  | orderJob => 50
  | jobObit => 56
  | statusNode => 58
  | disconnect => 59
  | altAuthenUser => 61
  | authToken => 63

def all : List ReqType :=
  [connect, queueJob, jobCred, jobScript, rdytoCommit, commit, deleteJob, holdJob, locateJob,
    manager, messJob, modifyJob, moveJob, releaseJob, rerun, runJob, selectJobs, shutdown,
    signalJob, statusJob, statusQueue, statusServer, checkpointJob, queueJob2, commit2,
    jobScript2, authenUser, orderJob, jobObit, statusNode, disconnect, altAuthenUser, authToken]

/-- The case of `dispatchRequest`; there is none for an unknown type. -/
def ofCode (n : Int) : Option ReqType := all.find? fun t => (t.code : Int) = n

theorem ofCode_code (t : ReqType) : ofCode t.code = some t := by cases t <;> rfl

/-- The types after which `handleConnection` reads no extension. -/
def skipsExtension (t : ReqType) : Bool :=
  t ∈ [connect, disconnect, authenUser, altAuthenUser, authToken, rerun]

end ReqType

/-- What a handler has read of the body of a request. -/
inductive Body where
  | empty
  | id (id : Bytes)
  | pair (first second : Bytes)
  | attrs (id : Bytes) (attrs : List SvrAttrl)
  | queueJob (jobID dest : Bytes) (attrs : List SvrAttrl)
  | jobCred (credType : Int) (credData : Bytes)
  | manager (command objType : Int) (objName : Bytes) (attrs : List SvrAttrl)
  | messJob (jobID : Bytes) (fileOption : Int) (message : Bytes)
  | jobObit (jobID : Bytes) (exitStatus : Int) (attrs : List SvrAttrl)
  | port (clientPort : Int)
  | credential (clientPort : Int) (cred : Bytes)
  | token (timestamp : Int) (token : Bytes)
  deriving DecidableEq, Repr

/-- The reading part of the handler of each type; the handlers of `AltAuthenUser` and of
`RerunJob` ignore failures. An unknown type has no handler. -/
def readBody : Option ReqType → Reader Body
  | none | some .connect | some .shutdown | some .disconnect => pure .empty
  | some .queueJob | some .queueJob2 => do
    let (jobID, dest, attrs) ← readQueueJobBody
    pure (.queueJob jobID dest attrs)
  | some .jobCred => do
    let (credType, credData) ← readJobCredBody
    pure (.jobCred credType credData)
  | some .jobScript | some .jobScript2 => do
    let (jobID, data) ← readJobScriptBody
    pure (.pair jobID data)
  | some .rdytoCommit | some .commit | some .commit2 => do
    let jobID ← readCommitBody
    pure (.id jobID)
  | some .deleteJob => do
    let jobID ← readDeleteJobBody
    pure (.id jobID)
  | some .holdJob | some .releaseJob => do
    let (jobID, attrs) ← readHoldJobBody
    pure (.attrs jobID attrs)
  | some .modifyJob => do
    let (jobID, attrs) ← readModifyJobBody
    pure (.attrs jobID attrs)
  | some .statusJob | some .statusQueue | some .statusServer | some .statusNode
  | some .selectJobs => do
    let (id, attrs) ← readStatusBody
    pure (.attrs id attrs)
  | some .manager => do
    let (command, objType, objName, attrs) ← readManagerBody
    pure (.manager command objType objName attrs)
  | some .signalJob => do
    let (jobID, signal) ← readSignalJobBody
    pure (.pair jobID signal)
  | some .jobObit => do
    let (jobID, exitStatus, attrs) ← readJobObit
    pure (.jobObit jobID exitStatus attrs)
  | some .runJob => do
    let (jobID, dest) ← readRunJobBody
    pure (.pair jobID dest)
  | some .moveJob => do
    let (jobID, dest) ← readMoveJobBody
    pure (.pair jobID dest)
  | some .locateJob => do
    let jobID ← readLocateJobBody
    pure (.id jobID)
  | some .orderJob => do
    let jobID₁ ← readString
    let jobID₂ ← readString
    pure (.pair jobID₁ jobID₂)
  | some .rerun => do
    let jobID ← readString
    let ext ← readString.attempt
    pure (.pair jobID (ext.toOption.getD []))
  | some .messJob => do
    let jobID ← readString
    let fileOption ← readUint
    let message ← readString
    pure (.messJob jobID fileOption message)
  | some .checkpointJob => do
    let jobID ← readString
    pure (.id jobID)
  | some .authenUser => do
    let clientPort ← readUint
    let _ ← readReqExtend.attempt
    pure (.port clientPort)
  | some .altAuthenUser => do
    let clientPort ← readUint.attempt
    let cred ← readString.attempt
    let _ ← readReqExtend.attempt
    pure (.credential (clientPort.toOption.getD 0) (cred.toOption.getD []))
  | some .authToken => do
    let timestamp ← readUint
    let token ← readString
    let _ ← readReqExtend.attempt
    pure (.token timestamp token)

/-- The header as `handleConnection` reads it. A message of a MOM or of an unknown
protocol ends the loop. -/
def readHeader : Reader (Option RequestHeader) := do
  let proto ← readUint
  if wrap64 proto ≠ pbsBatchProtType then pure none
  else
    let ver ← readUint
    let reqType ← readUint
    let user ← readString
    pure (some ⟨wrap64 proto, wrap64 ver, wrap64 reqType, user⟩)

def readExtension (t : Option ReqType) : Reader Bytes :=
  if t.any (·.skipsExtension) then pure [] else readReqExtend

/-- A request that has reached its handler. -/
structure Decoded where
  user : Bytes
  type : Option ReqType
  body : Body
  deriving DecidableEq, Repr

/-- The types that do not close the connection in any case. -/
def Decoded.goesOn (d : Decoded) : Bool := d.type ≠ some .disconnect && d.type ≠ some .shutdown

/-- One turn of the loop: the request, and the rest of the stream if the loop goes on. The
handler's answer is given by `keep`. -/
def turn (keep : Decoded → Bool) (bytes : Bytes) : Option (Decoded × Option Bytes) :=
  match readHeader bytes with
  | .value (some header) rest =>
    let type := ReqType.ofCode header.reqType
    match readBody type rest with
    | .value body rest =>
      let d : Decoded := ⟨header.user, type, body⟩
      match readExtension type rest with
      | .value _ rest => some (d, if keep d then some rest else none)
      | _ => some (d, none)
    | _ => none
  | _ => none

/-- The loop of `handleConnection`. Whether a handler keeps the connection may depend on all
requests so far, the last one first. Every turn that goes on has read at least one byte. -/
def handleConnectionFuel (keep : List Decoded → Bool) :
    Nat → List Decoded → Bytes → List (Decoded × Option Bytes)
  | 0, _, _ => []
  | fuel + 1, before, bytes =>
    match turn (fun d => d.goesOn && keep (d :: before)) bytes with
    | none => []
    | some (d, none) => [(d, none)]
    | some (d, some rest) => (d, some rest) :: handleConnectionFuel keep fuel (d :: before) rest

def handleConnection (keep : List Decoded → Bool) (bytes : Bytes) : List (Decoded × Option Bytes) :=
  handleConnectionFuel keep (bytes.length + 1) [] bytes

/-! ### The requests of the client -/

namespace Client

/-- An integer of 64 bits. -/
structure Word where
  value : Int
  range : -2 ^ 63 ≤ value ∧ value < 2 ^ 63

/-- What a method of `Conn` writes; `SubmitJob` writes two requests. -/
inductive Request where
  | close
  | authenticate (timestamp : Word) (token : Slice UInt8)
  | statusJob (jobID : Slice UInt8)
  | statusQueue (queueName : Slice UInt8)
  | statusServer
  | statusNode (nodeID : Slice UInt8)
  | queueJob (queue : Slice UInt8) (attrs : Slice Attribute)
  | jobScript (jobID script : Slice UInt8)
  | deleteJob (jobID extend : Slice UInt8)
  | holdJob (jobID holdType : Slice UInt8)
  | releaseJob (jobID holdType : Slice UInt8)
  | manager (cmd objType : Word) (objName : Slice UInt8) (attrs : Slice Attribute)
  | modifyJob (jobID : Slice UInt8) (attrs : Slice Attribute)
  | runJob (jobID destination : Slice UInt8)
  | signalJob (jobID signal : Slice UInt8)
  | shutdown (manner : Word)
  | selectJobs (attrs : Slice Attribute)
  | moveJob (jobID destination : Slice UInt8)
  | rerunJob (jobID : Slice UInt8) (force : Bool)
  | orderJob (jobID₁ jobID₂ : Slice UInt8)
  | messJob (jobID : Slice UInt8) (fileOpt : Word) (message : Slice UInt8)
  | checkpointJob (jobID : Slice UInt8)

def mgrObjJob : Nat := 3

/-- The attribute of `HoldJob` and `ReleaseJob`. -/
def holdAttribute (holdType : Slice UInt8) : Attribute where
  name := ⟨ascii "Hold_Types", by decide⟩
  hasResc := false
  resc := ⟨[], by decide⟩
  value := holdType
  op := 1
  range := Attribute.range_one

def writeAttributes (attrs : List Attribute) : Bytes := writeSvrAttrl (attrs.map Attribute.svrAttrl)

/-- The body of the Manage format, as the requests about one job write it. -/
def writeManageFormat (jobID : Slice UInt8) (attrs : List Attribute) : Bytes :=
  writeUint 0 ++ (writeUint mgrObjJob ++ (writeString jobID.items ++ writeAttributes attrs))

namespace Request

def type : Request → ReqType
  | close => .disconnect
  | authenticate .. => .authToken
  | statusJob _ => .statusJob
  | statusQueue _ => .statusQueue
  | statusServer => .statusServer
  | statusNode _ => .statusNode
  | queueJob .. => .queueJob2
  | jobScript .. => .jobScript2
  | deleteJob .. => .deleteJob
  | holdJob .. => .holdJob
  | releaseJob .. => .releaseJob
  | manager .. => .manager
  | modifyJob .. => .modifyJob
  | runJob .. => .runJob
  | signalJob .. => .signalJob
  | shutdown _ => .shutdown
  | selectJobs _ => .selectJobs
  | moveJob .. => .moveJob
  | rerunJob .. => .rerun
  | orderJob .. => .orderJob
  | messJob .. => .messJob
  | checkpointJob _ => .checkpointJob

/-- What is written between the header and the last string. -/
def body : Request → Bytes
  | close => []
  | authenticate timestamp token => writeCast timestamp.value ++ writeString token.items
  | statusJob id | statusQueue id | statusNode id => writeString id.items ++ writeAttributes []
  | statusServer => writeString [] ++ writeAttributes []
  | queueJob queue attrs =>
    writeString [] ++ (writeString queue.items ++ writeAttributes attrs.items)
  | jobScript jobID script =>
    writeUint 0 ++ (writeUint 0 ++ (writeUint script.items.length ++
      (writeString jobID.items ++ writeString script.items)))
  | deleteJob jobID _ => writeManageFormat jobID []
  | holdJob jobID holdType | releaseJob jobID holdType =>
    writeManageFormat jobID [holdAttribute holdType]
  | manager cmd objType objName attrs =>
    writeCast cmd.value ++ (writeCast objType.value ++
      (writeString objName.items ++ writeAttributes attrs.items))
  | modifyJob jobID attrs => writeManageFormat jobID attrs.items
  | runJob first second | signalJob first second | moveJob first second
  | orderJob first second => writeString first.items ++ writeString second.items
  | shutdown manner => writeCast manner.value
  | selectJobs attrs => writeString [] ++ writeAttributes attrs.items
  | rerunJob jobID _ => writeString jobID.items
  | messJob jobID fileOpt message =>
    writeString jobID.items ++ (writeCast fileOpt.value ++ writeString message.items)
  | checkpointJob jobID => writeString jobID.items

def extend : Request → Bytes
  | deleteJob _ extend => extend.items
  | rerunJob _ force => if force then ascii "RERUNFORCE" else []
  | _ => []

/-- What the handler of the request should get. -/
def sent : Request → Body
  | close | shutdown _ => .empty
  | authenticate timestamp token => .token timestamp.value token.items
  | statusJob id | statusQueue id | statusNode id => .attrs id.items []
  | statusServer => .attrs [] []
  | queueJob queue attrs => .queueJob [] queue.items (attrs.items.map Attribute.sent)
  | jobScript jobID script => .pair jobID.items script.items
  | deleteJob jobID _ | checkpointJob jobID => .id jobID.items
  | holdJob jobID holdType | releaseJob jobID holdType =>
    .attrs jobID.items [(holdAttribute holdType).sent]
  | manager cmd objType objName attrs =>
    .manager cmd.value objType.value objName.items (attrs.items.map Attribute.sent)
  | modifyJob jobID attrs => .attrs jobID.items (attrs.items.map Attribute.sent)
  | runJob first second | signalJob first second | moveJob first second
  | orderJob first second => .pair first.items second.items
  | selectJobs attrs => .attrs [] (attrs.items.map Attribute.sent)
  | rerunJob jobID force => .pair jobID.items (if force then ascii "RERUNFORCE" else [])
  | messJob jobID fileOpt message => .messJob jobID.items fileOpt.value message.items

def numbers : Request → List Int
  | authenticate timestamp _ => [timestamp.value]
  | queueJob _ attrs | modifyJob _ attrs | selectJobs attrs => attrs.items.map (·.op)
  | manager cmd objType _ attrs => cmd.value :: objType.value :: attrs.items.map (·.op)
  | messJob _ fileOpt _ => [fileOpt.value]
  | _ => []

def closes (r : Request) : Bool := r.type = .disconnect || r.type = .shutdown

end Request

def writeHeader (user : Slice UInt8) (t : ReqType) : Bytes :=
  writeUint pbsBatchProtType ++ (writeUint pbsBatchProtVer ++ (writeUint t.code ++ writeString user.items))

def write (user : Slice UInt8) (r : Request) : Bytes :=
  writeHeader user r.type ++ (r.body ++ writeString r.extend)

def writeAll (user : Slice UInt8) (requests : List Request) : Bytes := requests.flatMap (write user)

def Request.decoded (r : Request) (user : Slice UInt8) : Decoded := ⟨user.items, some r.type, r.sent⟩

/-- What the server should see: each request as it was sent, up to one after which the
connection is closed, and after each the reader at the first byte of the next. -/
def expected (user : Slice UInt8) (keep : List Decoded → Bool) :
    List Decoded → List Request → List (Decoded × Option Bytes)
  | _, [] => []
  | before, r :: rest =>
    let d := r.decoded user
    if !r.closes && keep (d :: before) then
      (d, some (writeAll user rest)) :: expected user keep (d :: before) rest
    else [(d, none)]

def reached : List Request → List Request
  | [] => []
  | r :: rest => r :: if r.closes then [] else reached rest

/-- The bytes are one complete string of the format. -/
def isString (bytes : Bytes) : Bool :=
  match Dis.readString bytes with
  | .value _ [] => true
  | _ => false

/-- The numbers are not negative, and the last string is read as it was written. -/
def Request.Framed (r : Request) : Prop :=
  (∀ n ∈ r.numbers, 0 ≤ n) ∧ (r.type = .deleteJob → r.extend = [] ∨ isString r.extend)

instance (r : Request) : Decidable r.Framed := inferInstanceAs (Decidable (_ ∧ _))

end Client

/-! ### A request and its reader -/

section Bodies
open Client (Request Word writeHeader writeAttributes writeManageFormat mgrObjJob holdAttribute write)
variable {user : Slice UInt8} {failed : Prop} {rest : Bytes}

theorem readHeader_decodes (user : Slice UInt8) (t : ReqType) :
    readHeader.Decodes (writeHeader user t)
      (some ⟨pbsBatchProtType, pbsBatchProtVer, t.code, user.items⟩) := by
  have small : t.code < 2 ^ 63 := by cases t <;> decide
  have code : wrap64 t.code = t.code := wrap64_eq (by omega) (by omega)
  have two : wrap64 ((2 : Nat) : Int) = ((2 : Nat) : Int) := wrap64_eq (by decide) (by decide)
  refine (readUint_writeUint (by decide)).bind ?_
  rw [if_neg (by rw [pbsBatchProtType, two]; simp)]
  refine (readUint_writeUint (by decide)).bind ((readUint_writeUint small).bind ?_)
  rw [code, pbsBatchProtType, pbsBatchProtVer, two]
  exact (readString_writeString user.allocated).bind_pure _

theorem string_ensures (s : Slice UInt8) {post : Bytes → Bytes → Prop} {failed : Bytes → Prop} :
    readString.Ensures post failed (writeString s.items ++ rest) ↔ post s.items rest :=
  (readString_writeString s.allocated).ensures

theorem nil_ensures {post : Bytes → Bytes → Prop} {failed : Bytes → Prop} :
    readString.Ensures post failed (writeString [] ++ rest) ↔ post [] rest :=
  (readString_writeString (by decide)).ensures

theorem attributes_ensures (attrs : Slice Attribute) {post : List SvrAttrl → Bytes → Prop} :
    readSvrAttrl.Ensures post (fun _ => failed) (writeAttributes attrs.items ++ rest) ↔
      if ∀ n ∈ attrs.items.map (·.op), 0 ≤ n then post (attrs.items.map Attribute.sent) rest
      else failed := by
  simp only [writeAttributes, readSvrAttrl_writeSvrAttrl, List.forall_mem_map]

theorem word_ensures (n : Word) {post : Int → Bytes → Prop} :
    readUint.Ensures post (fun _ => failed) (writeCast n.value ++ rest) ↔
      if 0 ≤ n.value then post n.value rest else failed :=
  readUint_writeCast n.range.1 n.range.2

theorem noAttributes_decodes : readSvrAttrl.Decodes (writeAttributes []) [] :=
  @readSvrAttrl_decodes ⟨[], by decide⟩ (by simp)

theorem holdAttribute_decodes (holdType : Slice UInt8) :
    readSvrAttrl.Decodes (writeAttributes [holdAttribute holdType]) [(holdAttribute holdType).sent] :=
  @readSvrAttrl_decodes ⟨[holdAttribute holdType], by rw [List.length_singleton]; decide⟩
    (by simp [holdAttribute])

/-- What is left of the stream behind the body: `RerunJob` and `AuthToken` read the last
string themselves. -/
def Client.Request.behind (r : Request) (rest : Bytes) : Bytes :=
  if r.type = .rerun ∨ r.type = .authToken then rest else writeString r.extend ++ rest

theorem readReqExtend_empty : readReqExtend.Decodes (writeString []) [] :=
  (readUint_writeUint (by decide)).bind (.pure [])

/-- The handler of a request gets what was sent unless a number is negative. -/
theorem readBody_ensures (r : Request) {post : Body → Bytes → Prop} (open_ : r.type ≠ .shutdown) :
    (readBody (some r.type)).Ensures post (fun _ => failed) (r.body ++ (writeString r.extend ++ rest)) ↔
      if ∀ n ∈ r.numbers, 0 ≤ n then post r.sent (r.behind rest) else failed := by
  have zero : readUint.Decodes (writeUint 0) 0 := readUint_writeUint (by decide)
  have three : readUint.Decodes (writeUint mgrObjJob) mgrObjJob := readUint_writeUint (by decide)
  cases r with
  | close => simp [Request.type, Request.body, readBody, Request.numbers, Request.sent, Request.behind]
  | shutdown => exact absurd rfl open_
  | authenticate timestamp token =>
    simp only [Request.type, Request.body, Request.extend, readBody, Request.numbers, Request.sent,
      Request.behind, List.append_assoc, ensures_bind, ensures_pure, word_ensures, string_ensures,
      readReqExtend_empty.attempt.ensures, List.forall_mem_singleton, or_true, if_true]
  | statusJob id | statusQueue id | statusNode id =>
    simp [Request.type, Request.body, Request.numbers, Request.sent, Request.behind, readBody,
      readStatusBody, string_ensures, noAttributes_decodes.ensures]
  | statusServer =>
    simp [Request.type, Request.body, Request.numbers, Request.sent, Request.behind, readBody,
      readStatusBody, nil_ensures, noAttributes_decodes.ensures]
  | queueJob queue attrs =>
    simp [Request.type, Request.body, Request.numbers, Request.sent, Request.behind, readBody,
      readQueueJobBody, context, nil_ensures, string_ensures, attributes_ensures]
  | jobScript jobID script =>
    have size : script.items.length < 2 ^ 63 := by
      have bound := script.allocated
      rw [makeBound_byte] at bound
      omega
    simp [Request.type, Request.body, Request.numbers, Request.sent, Request.behind, readBody,
      readJobScriptBody, zero.ensures, (readUint_writeUint size).ensures, string_ensures]
  | deleteJob jobID extend =>
    simp [Request.type, Request.body, Request.numbers, Request.sent, Request.behind, readBody,
      readDeleteJobBody, writeManageFormat, zero.attempt.ensures, three.attempt.ensures, string_ensures,
      noAttributes_decodes.attempt.ensures]
  | holdJob jobID holdType | releaseJob jobID holdType =>
    simp [Request.type, Request.body, Request.numbers, Request.sent, Request.behind, readBody,
      readHoldJobBody, readManageFormat, writeManageFormat, zero.attempt.ensures, three.attempt.ensures,
      string_ensures, (holdAttribute_decodes holdType).ensures]
  | manager cmd objType objName attrs =>
    have command : wrap64 cmd.value = cmd.value := wrap64_eq cmd.range.1 cmd.range.2
    have object : wrap64 objType.value = objType.value := wrap64_eq objType.range.1 objType.range.2
    simp only [Request.type, Request.body, Request.numbers, Request.sent, Request.behind, readBody,
      readManagerBody, List.append_assoc, ensures_bind, ensures_pure, word_ensures, string_ensures,
      attributes_ensures, command, object, List.forall_mem_cons, ite_and]
    simp
  | modifyJob jobID attrs =>
    simp [Request.type, Request.body, Request.numbers, Request.sent, Request.behind, readBody,
      readModifyJobBody, readManageFormat, writeManageFormat, zero.attempt.ensures, three.attempt.ensures,
      string_ensures, attributes_ensures]
  | runJob first second | signalJob first second | moveJob first second | orderJob first second =>
    simp [Request.type, Request.body, Request.numbers, Request.sent, Request.behind, readBody,
      readRunJobBody, readSignalJobBody, readMoveJobBody, string_ensures]
  | selectJobs attrs =>
    simp [Request.type, Request.body, Request.numbers, Request.sent, Request.behind, readBody,
      readStatusBody, nil_ensures, attributes_ensures]
  | rerunJob jobID force =>
    have small : ((if force then ascii "RERUNFORCE" else []).length : Int) < makeBound UInt8 := by
      cases force <;> decide
    simp [Request.type, Request.body, Request.extend, Request.numbers, Request.sent, Request.behind,
      readBody, string_ensures, (readString_writeString small).attempt.ensures, Except.toOption]
  | messJob jobID fileOpt message =>
    simp [Request.type, Request.body, Request.numbers, Request.sent, Request.behind, readBody,
      string_ensures, word_ensures]
  | checkpointJob jobID =>
    simp [Request.type, Request.body, Request.numbers, Request.sent, Request.behind, readBody,
      string_ensures]

theorem readBody_sent {r : Request} (open_ : r.type ≠ .shutdown) :
    readBody (some r.type) (r.body ++ (writeString r.extend ++ rest)) = .value r.sent (r.behind rest) ↔
      ∀ n ∈ r.numbers, 0 ≤ n := by
  rw [eq_value_iff, readBody_ensures r open_]
  split
  case isTrue nonneg => exact iff_of_true ⟨rfl, rfl⟩ nonneg
  case isFalse negative => exact iff_of_false id negative

/-- An extension that is not empty is read as if its bytes were a string of the format. -/
theorem readReqExtend_string {e : Bytes} (small : (e.length : Int) < makeBound UInt8) (some : e ≠ []) :
    readReqExtend (writeString e ++ rest) = readString (e ++ rest) := by
  have size : e.length < 2 ^ 63 := by
    rw [makeBound_byte] at small
    omega
  have pos : ¬ (e.length : Int) = 0 := by simpa using some
  rw [writeString, List.append_assoc]
  simp only [readReqExtend, Bind.bind, Decoder.bind, readUint_writeUint size (e ++ rest), if_neg pos]

theorem isString_iff {e : Bytes} : Client.isString e = true ↔ ∃ s, readString.Decodes e s := by
  constructor
  · intro whole
    unfold Client.isString at whole
    split at whole
    case h_1 s read =>
      obtain ⟨used, same, decodes⟩ := readString_local e s [] read
      rw [List.append_nil] at same
      exact ⟨s, same ▸ decodes⟩
    case h_2 => cases whole
  · rintro ⟨s, decodes⟩
    have read := decodes []
    rw [List.append_nil] at read
    simp [Client.isString, read]

/-- The reader stands behind the request after its extension exactly if that is empty or a
string of the format. -/
theorem readExtension_iff {r : Request} (open_ : r.closes = false) (rest : Bytes) :
    (∃ e, readExtension (some r.type) (r.behind rest) = .value e rest) ↔
      (r.type = .deleteJob → r.extend = [] ∨ Client.isString r.extend) := by
  cases r with
  | close | shutdown => cases open_
  | authenticate | rerunJob => exact iff_of_true ⟨[], rfl⟩ fun other => nomatch other
  | deleteJob jobID extend =>
    show (∃ e, readReqExtend (writeString extend.items ++ rest) = .value e rest) ↔ _
    by_cases empty : extend.items = []
    · exact iff_of_true ⟨[], by rw [empty]; exact readReqExtend_empty rest⟩ fun _ => .inl empty
    · rw [readReqExtend_string extend.allocated empty]
      constructor
      · rintro ⟨s, read⟩ -
        obtain ⟨used, same, decodes⟩ := readString_local _ _ _ read
        obtain rfl : extend.items = used := List.append_cancel_right same
        exact .inr (isString_iff.mpr ⟨s, decodes⟩)
      · intro framed
        obtain ⟨s, decodes⟩ := isString_iff.mp ((framed rfl).resolve_left empty)
        exact ⟨s, decodes rest⟩
  | _ => exact iff_of_true ⟨[], readReqExtend_empty rest⟩ fun other => nomatch other

theorem alive {r : Request} (open_ : r.closes = false) : r.type ≠ .shutdown := by
  intro shut
  simp [Client.Request.closes, shut] at open_

theorem turn_write (keep : Decoded → Bool) (r : Request) :
    turn keep (write user r ++ rest) =
      match readBody (some r.type) (r.body ++ (writeString r.extend ++ rest)) with
      | .value body rest =>
        let d : Decoded := ⟨user.items, some r.type, body⟩
        match readExtension (some r.type) rest with
        | .value _ rest => some (d, if keep d then some rest else none)
        | _ => some (d, none)
      | _ => none := by
  rw [turn, write, List.append_assoc, List.append_assoc, readHeader_decodes]
  simp only [ReqType.ofCode_code]

theorem turn_framed {keep : Decoded → Bool} {r : Request} (open_ : r.closes = false) (framed : r.Framed) :
    turn keep (write user r ++ rest) =
      some (r.decoded user, if keep (r.decoded user) then some rest else none) := by
  obtain ⟨e, read⟩ := (readExtension_iff open_ rest).mpr framed.2
  rw [turn_write, (readBody_sent (alive open_)).mpr framed.1]
  simp only [read]
  rfl

theorem turn_closes {keep : Decoded → Bool} {r : Request} (closes : r.closes = true)
    (closed : keep (r.decoded user) = false) :
    turn keep (write user r ++ rest) = some (r.decoded user, none) := by
  rw [turn_write]
  cases r with
  | close =>
    exact congrArg some (Prod.ext rfl (if_neg (Bool.eq_false_iff.mp closed)))
  | shutdown manner =>
    -- the manner is still unread, and is taken for the flag of the extension
    show (match readExtension _ _ with | .value _ rest => _ | _ => _) = _
    split
    · exact congrArg some (Prod.ext rfl (if_neg (Bool.eq_false_iff.mp closed)))
    · rfl
  | _ => cases closes

theorem framed_of_turn {keep : Decoded → Bool} {r : Request} (open_ : r.closes = false)
    (read : turn keep (write user r ++ rest) = some (r.decoded user, some rest)) : r.Framed := by
  rw [turn_write] at read
  split at read
  case h_2 => cases read
  case h_1 body between here =>
    rw [eq_value_iff, readBody_ensures r (alive open_)] at here
    split at here
    case isFalse => exact here.elim
    case isTrue nonneg =>
      obtain ⟨rfl, rfl⟩ := here
      refine ⟨nonneg, (readExtension_iff open_ rest).mp ?_⟩
      simp only at read
      split at read
      case h_2 => cases read
      case h_1 e after extension =>
        split at read
        · cases read
          exact ⟨e, extension⟩
        · cases read

theorem goesOn_decoded (r : Request) : (r.decoded user).goesOn = !r.closes := by
  cases r <;> rfl

theorem framed_of_closes {r : Request} (closes : r.closes = true) : r.Framed := by
  cases r with
  | close | shutdown => exact ⟨fun n none => (List.not_mem_nil none).elim, fun other => nomatch other⟩
  | _ => cases closes

theorem write_length (user : Slice UInt8) (r : Request) : 0 < (write user r).length := by
  have proto : 0 < (writeUint pbsBatchProtType).length := by decide
  simp only [write, writeHeader, List.length_append]
  omega

end Bodies

/-! ### A connection -/

namespace Client

theorem writeAll_cons (user : Slice UInt8) (r : Request) (rest : List Request) :
    writeAll user (r :: rest) = write user r ++ writeAll user rest := List.flatMap_cons

theorem handleConnectionFuel_framed {user : Slice UInt8} {keep : List Decoded → Bool}
    {requests : List Request} (framed : ∀ r ∈ reached requests, r.Framed) (before : List Decoded)
    {fuel : Nat} (enough : (writeAll user requests).length < fuel) :
    handleConnectionFuel keep fuel before (writeAll user requests) = expected user keep before requests := by
  induction requests generalizing before fuel with
  | nil =>
    obtain ⟨fuel, rfl⟩ := Nat.exists_eq_add_one_of_ne_zero (Nat.ne_of_gt (Nat.zero_lt_of_lt enough))
    rfl
  | cons r rest ih =>
    obtain ⟨fuel, rfl⟩ := Nat.exists_eq_add_one_of_ne_zero (Nat.ne_of_gt (Nat.zero_lt_of_lt enough))
    rw [writeAll_cons, handleConnectionFuel]
    by_cases closes : r.closes = true
    · rw [turn_closes closes (by rw [goesOn_decoded, closes]; rfl)]
      simp [expected, closes]
    · have open_ : r.closes = false := Bool.eq_false_iff.mpr closes
      rw [turn_framed open_ (framed r List.mem_cons_self), goesOn_decoded, open_]
      by_cases goes : keep (r.decoded user :: before) = true
      · have tail : ∀ q ∈ reached rest, q.Framed := by
          intro q mem
          exact framed q (by simp [reached, open_, mem])
        have shorter : (writeAll user rest).length < fuel := by
          have first := write_length user r
          rw [writeAll_cons, List.length_append] at enough
          omega
        simp [expected, open_, goes, ih tail _ shorter]
      · simp [expected, open_, goes]

theorem framed_of_handleConnectionFuel {user : Slice UInt8} {requests : List Request}
    {fuel : Nat} {before : List Decoded}
    (read : handleConnectionFuel (fun _ => true) fuel before (writeAll user requests) =
      expected user (fun _ => true) before requests) :
    ∀ r ∈ reached requests, r.Framed := by
  induction requests generalizing before fuel with
  | nil => exact fun r none => (List.not_mem_nil none).elim
  | cons r rest ih =>
    by_cases closes : r.closes = true
    · intro q mem
      obtain rfl : q = r := by simpa [reached, closes] using mem
      exact framed_of_closes closes
    · have open_ : r.closes = false := Bool.eq_false_iff.mpr closes
      cases fuel with
      | zero => simp [handleConnectionFuel, expected, open_] at read
      | succ fuel =>
        rw [writeAll_cons, handleConnectionFuel] at read
        simp only [expected, open_, Bool.not_false, Bool.and_true, ↓reduceIte] at read
        split at read
        case h_1 => cases read
        case h_2 => cases read
        case h_3 d left taken =>
          rw [List.cons.injEq, Prod.mk.injEq, Option.some.injEq] at read
          obtain ⟨⟨rfl, rfl⟩, later⟩ := read
          intro q mem
          obtain rfl | mem : q = r ∨ q ∈ reached rest := by simpa [reached, open_] using mem
          · exact framed_of_turn open_ taken
          · exact ih later q mem

/-- The server decodes what the client has written on a connection, whatever the handlers
answer, exactly if each request up to the first that closes the connection has its numbers
not negative and, for a deletion, an extension that is empty or itself a string of the
format. -/
theorem handleConnection_decodes_iff (user : Slice UInt8) (requests : List Request) :
    (∀ keep, handleConnection keep (writeAll user requests) = expected user keep [] requests) ↔
      ∀ r ∈ reached requests, r.Framed := by
  constructor
  · intro decodes
    exact framed_of_handleConnectionFuel (decodes fun _ => true)
  · intro framed keep
    exact handleConnectionFuel_framed framed [] (Nat.lt_succ_self _)

def purges : List Request :=
  [.deleteJob ⟨ascii "1.s", by decide⟩ ⟨ascii "purge", by decide⟩,
    .deleteJob ⟨ascii "2.s", by decide⟩ ⟨ascii "purge", by decide⟩]

/-- The server takes the length of the extension for its flag, finds no string behind it and
closes the connection: the second deletion is never seen. -/
theorem second_purge_lost :
    (handleConnection (fun _ => true) (writeAll ⟨[], by decide⟩ purges)).map (·.1.body) = [.id (ascii "1.s")] ∧
      (expected ⟨[], by decide⟩ (fun _ => true) [] purges).map (·.1.body) =
        [.id (ascii "1.s"), .id (ascii "2.s")] := by
  decide +kernel

end Client

end OpenTorque.Dis
