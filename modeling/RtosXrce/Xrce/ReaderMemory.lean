import RtosXrce.Xrce.Msgs
import RtosXrce.Xrce.Session

/-!
# The memory accesses of the readers

The reading half of `xrce/src/cdr.c` once more, with the decoders of `xrce/src/msgs.c` and the
parsers of `xrce/src/session.c` on top of it, down to machine arithmetic and single accesses:
`size_t` wraps, and every bounds test, every byte taken from the input and every element written to
an array of the caller is noted down, whether it is in bounds or not. The results are those of
`Cdr`, `Msgs` and `Session`.
-/

namespace RtosXrce.Xrce.Memory

open Library Cdr

/-- Where the code runs. -/
inductive Target where
  | host
  | board

def Target.width : Target → Nat
  | host => 64
  | board => 32

theorem Target.two_pow_le (t : Target) : 2 ^ 32 ≤ 2 ^ t.width := by
  cases t <;> simp [width]

/-- `size_t`. -/
abbrev Size (t : Target) := BitVec t.width

inductive Access where
  /-- A call of `ensure` with the reader at `pos`. -/
  | check (pos : Nat)
  /-- A load of `buf[i]`. -/
  | input (i : Nat)
  /-- Element `i` of an array of the caller with `cap` elements, read or written. -/
  | output (cap i : Nat)

def Access.Inside (len : Nat) : Access → Prop
  | check pos => pos ≤ len
  | input i => i < len
  | output cap i => i < cap

/-- `xrce_cdr_reader_t`, and what was accessed so far. -/
structure Cursor (t : Target) where
  buf : Nat → UInt8
  len : Size t
  pos : Size t
  alignBase : Size t
  log : List Access

abbrev Traced (t : Target) := Fallible (Cursor t)

variable {t : Target} {α : Type}

/-- `xrce_cdr_reader_init`. -/
def readerInit (buf : Nat → UInt8) (len : Size t) : Cursor t := ⟨buf, len, 0, 0, []⟩

def note (accesses : List Access) : Traced t Unit :=
  modify fun c => { c with log := c.log ++ accesses }

/-- `ensure`, and the return that follows when it does not hold. -/
def ensure (n : Size t) : Traced t Unit := do
  let c ← get
  note [.check c.pos.toNat]
  if n ≤ c.len - c.pos then return else failure

/-- `r->pos += n`. -/
def advance (n : Size t) : Traced t Unit := modify fun c => { c with pos := c.pos + n }

/-- `align_reader`. -/
def alignReader (n : Size t) : Traced t Unit := do
  let c ← get
  let rem := (c.pos - c.alignBase) % n
  if rem ≠ 0 then
    ensure (n - rem)
    advance (n - rem)

/-- `r->buf[r->pos + i]`. -/
def load (i : Size t) : Traced t UInt8 := do
  let c ← get
  note [.input (c.pos + i).toNat]
  return c.buf (c.pos + i).toNat

/-- The loads of a loop over `i < n`. -/
def loads (n : Nat) : Traced t (Vector UInt8 n) := do
  let c ← get
  note ((List.range n).map fun i => .input (c.pos + BitVec.ofNat _ i).toNat)
  return Vector.ofFn fun i => c.buf (c.pos + BitVec.ofNat _ i.val).toNat

/-- `memcpy(out, &r->buf[r->pos], n)`, where `out` has `cap` bytes. -/
def memcpy (cap n : Nat) : Traced t (Vector UInt8 n) := do
  let c ← get
  note ((List.range n).flatMap fun i => [.input (c.pos.toNat + i), .output cap i])
  return Vector.ofFn fun i => c.buf (c.pos.toNat + i)

/-- The test that begins every read, what the read takes, and the step past it. -/
def take (n : Nat) (body : Traced t α) : Traced t α := do
  ensure (BitVec.ofNat _ n)
  let v ← body
  advance (BitVec.ofNat _ n)
  return v

/-- The second byte is looked at only when the first one is right. -/
def isCdrLe : Traced t Bool := do
  let b ← load 0
  if b = 0x00 then
    let b' ← load 1
    return b' = 0x01
  else return false

/-- `xrce_cdr_read_header`. -/
def readHeader : Traced t Unit := do
  let isCdrLe ← take 4 isCdrLe
  modify fun c => { c with alignBase := c.pos }
  if isCdrLe then return else failure

/-- `xrce_cdr_read_u8`. -/
def readU8 : Traced t UInt8 := take 1 (load 0)

/-- `xrce_cdr_read_bool`. -/
def readBool : Traced t Bool := do
  let v ← readU8
  return v ≠ 0

/-- The frame of the reads of one word of `n` bytes. -/
def readWord (n : Nat) : Traced t (Vector UInt8 n) := do
  alignReader (BitVec.ofNat _ n)
  take n (loads n)

/-- `xrce_cdr_read_i16`. -/
def readI16 : Traced t Int16 := do
  let b ← readWord 2
  return (gatherU16 b).toInt16

/-- `xrce_cdr_read_u32`. -/
def readU32 : Traced t UInt32 := do
  let b ← readWord 4
  return gatherU32 b

/-- `xrce_cdr_read_i32`. -/
def readI32 : Traced t Int32 := do
  let u ← readU32
  return u.toInt32

/-- `xrce_cdr_read_f64`. -/
def readF64 : Traced t UInt64 := do
  let b ← readWord 8
  return gatherU64 b

/-- `xrce_cdr_read_bytes`, where `out` has `cap` bytes. -/
def readBytes (cap len : Nat) : Traced t (Vector UInt8 len) := take len (memcpy cap len)

/-- A `uint32_t` as a `size_t`. -/
def sizeOfU32 (v : UInt32) : Size t := BitVec.ofNat _ v.toNat

@[simp] theorem toNat_sizeOfU32 (v : UInt32) : (sizeOfU32 v : Size t).toNat = v.toNat := by
  have hv := v.toNat_lt
  have hwidth := t.two_pow_le
  rw [sizeOfU32, BitVec.toNat_ofNat]
  exact Nat.mod_eq_of_lt (by omega)

theorem le_of_sizeOfU32_le {v : UInt32} {n : Nat}
    (h : (sizeOfU32 v : Size t) ≤ BitVec.ofNat _ n) : v.toNat ≤ n := by
  have hle : v.toNat ≤ n % 2 ^ t.width := by simpa [BitVec.le_def] using h
  exact hle.trans (Nat.mod_le _ _)

/-- `xrce_cdr_read_string`, where `out` has `outCap` bytes. -/
def readString (outCap : Nat) : Traced t (FixedString outCap) := do
  let slen ← readU32
  if h : slen.toNat ≠ 0 ∧ (sizeOfU32 slen : Size t) ≤ BitVec.ofNat _ outCap then
    let out ← take slen.toNat (memcpy outCap slen.toNat)
    note [.output outCap (slen.toNat - 1)]
    if hz : out[slen.toNat - 1] = 0 then
      return { toCString := CString.ofBytes out.toList
               fits := (CString.length_ofBytes_lt out h.1 hz).trans_le (le_of_sizeOfU32_le h.2) }
    else failure
  else failure

/-- A loop that has `read` fill `n` elements of an array of `cap`, the first one at `i`. -/
def readMany (read : Traced t α) (cap i : Nat) : (n : Nat) → Traced t { l : List α // l.length = n }
  | 0 => return ⟨[], rfl⟩
  | n + 1 => do
    note [.output cap i]
    let a ← read
    let l ← readMany read cap (i + 1) n
    return ⟨a :: l.val, by simp [l.property]⟩

theorem length_lt_of_count {count : UInt32} (l : { l : List α // l.length = count.toNat }) :
    l.val.length < 2 ^ 32 := by
  rw [l.property]
  exact count.toNat_lt

/-- A count that the array has room for, and a loop that reads as many elements. -/
def readSequence (read : Traced t α) (outCap : Nat) : Traced t (Counted α outCap) := do
  let count ← readU32
  if h : (sizeOfU32 count : Size t) ≤ BitVec.ofNat _ outCap then
    let l ← readMany read outCap 0 count.toNat
    return { elems := l.val
             count_lt := length_lt_of_count l
             fits := by rw [l.property]; exact le_of_sizeOfU32_le h }
  else failure

/-- `xrce_cdr_read_seq_i32`. -/
def readSeqI32 (outCap : Nat) : Traced t (Counted Int32 outCap) := readSequence readI32 outCap

/-! ## Decoders -/

/-- The frame of every `_decode`. -/
def decode (body : Traced t α) (buf : Nat → UInt8) (len : Size t) : Option α × Cursor t :=
  Fallible.exec (do readHeader; body) (readerInit buf len)

/-- `read_vec3`. -/
def readVec3 : Traced t Msgs.GeometryMsgsVector3 := do
  return { x := ← readF64, y := ← readF64, z := ← readF64 }

theorem size_cov (l : { l : List UInt64 // l.length = 9 }) : l.val.toArray.size = 9 := by
  simp [l.property]

/-- `read_cov`. -/
def readCov : Traced t (Vector UInt64 9) := do
  let l ← readMany readF64 9 0 9
  return ⟨l.val.toArray, size_cov l⟩

def readImu : Traced t Msgs.SensorMsgsImu := do
  let sec ← readI32
  let nanosec ← readU32
  let frameId ← readString Msgs.frameIdMax
  let x ← readF64
  let y ← readF64
  let z ← readF64
  let w ← readF64
  let orientationCovariance ← readCov
  let angularVelocity ← readVec3
  let angularVelocityCovariance ← readCov
  let linearAcceleration ← readVec3
  let linearAccelerationCovariance ← readCov
  return {
    header := { stamp := { sec, nanosec }, frameId }
    orientation := { x, y, z, w }
    orientationCovariance, angularVelocity, angularVelocityCovariance, linearAcceleration,
    linearAccelerationCovariance }

/-- `read_fibonacci_result`. -/
def readFibonacciResult : Traced t Msgs.FibonacciResult := do
  return { sequence := ← readSeqI32 Msgs.seqI32Max }

/-- A read of a `goal_id`. -/
def readUuid : Traced t Msgs.Uuid := readBytes Msgs.uuidSize Msgs.uuidSize

/-- `read_goal_info`. -/
def readGoalInfo : Traced t Msgs.ActionMsgsGoalInfo := do
  let goalId ← readUuid
  let sec ← readI32
  let nanosec ← readU32
  return { goalId, stamp := { sec, nanosec } }

/-- `read_goal_status`. -/
def readGoalStatus : Traced t Msgs.ActionMsgsGoalStatus := do
  let goalInfo ← readGoalInfo
  let status ← readU8
  return { goalInfo, status := status.toInt8 }

/-- `read_key_value`. -/
def readKeyValue : Traced t Msgs.DiagnosticMsgsKeyValue := do
  return { key := ← readString Msgs.diagStrMax, value := ← readString Msgs.diagStrMax }

/-- `read_diagnostic_status`. -/
def readDiagnosticStatus : Traced t Msgs.DiagnosticMsgsDiagnosticStatus := do
  let level ← readU8
  let name ← readString Msgs.diagStrMax
  let message ← readString Msgs.diagStrMax
  let hardwareId ← readString Msgs.diagStrMax
  let values ← readSequence readKeyValue Msgs.kvMax
  return { level, name, message, hardwareId, values }

/-- The `_decode` functions of `xrce/include/xrce/msgs.h`. -/
inductive Decoder where
  | stdMsgsInt32
  | stdMsgsString
  | sensorMsgsImu
  | geometryMsgsTwist
  | stdSrvsTriggerRequest
  | stdSrvsTriggerResponse
  | fibonacciSendGoalRequest
  | fibonacciSendGoalResponse
  | fibonacciGetResultRequest
  | fibonacciGetResultResponse
  | fibonacciFeedbackMessage
  | actionMsgsGoalStatus
  | actionMsgsGoalStatusArray
  | actionMsgsCancelGoalRequest
  | actionMsgsCancelGoalResponse
  | diagnosticMsgsDiagnosticArray

def Decoder.Message : Decoder → Type
  | stdMsgsInt32 => Msgs.StdMsgsInt32
  | stdMsgsString => Msgs.StdMsgsString
  | sensorMsgsImu => Msgs.SensorMsgsImu
  | geometryMsgsTwist => Msgs.GeometryMsgsTwist
  | stdSrvsTriggerRequest => Msgs.StdSrvsTriggerRequest
  | stdSrvsTriggerResponse => Msgs.StdSrvsTriggerResponse
  | fibonacciSendGoalRequest => Msgs.FibonacciSendGoalRequest
  | fibonacciSendGoalResponse => Msgs.FibonacciSendGoalResponse
  | fibonacciGetResultRequest => Msgs.FibonacciGetResultRequest
  | fibonacciGetResultResponse => Msgs.FibonacciGetResultResponse
  | fibonacciFeedbackMessage => Msgs.FibonacciFeedbackMessage
  | actionMsgsGoalStatus => Msgs.ActionMsgsGoalStatus
  | actionMsgsGoalStatusArray => Msgs.ActionMsgsGoalStatusArray
  | actionMsgsCancelGoalRequest => Msgs.ActionMsgsCancelGoalRequest
  | actionMsgsCancelGoalResponse => Msgs.ActionMsgsCancelGoalResponse
  | diagnosticMsgsDiagnosticArray => Msgs.DiagnosticMsgsDiagnosticArray

/-- What a decoder reads behind the header. -/
def Decoder.body : (d : Decoder) → Traced t d.Message
  | stdMsgsInt32 => do
    return ({ data := ← readI32 } : Msgs.StdMsgsInt32)
  | stdMsgsString => do
    return ({ data := ← readString Msgs.stringMax } : Msgs.StdMsgsString)
  | sensorMsgsImu => readImu
  | geometryMsgsTwist => do
    return ({ linear := ← readVec3, angular := ← readVec3 } : Msgs.GeometryMsgsTwist)
  | stdSrvsTriggerRequest => do
    return ({} : Msgs.StdSrvsTriggerRequest)
  | stdSrvsTriggerResponse => do
    return ({ success := ← readBool, message := ← readString Msgs.stringMax }
      : Msgs.StdSrvsTriggerResponse)
  | fibonacciSendGoalRequest => do
    return ({ goalId := ← readUuid, order := ← readI32 } : Msgs.FibonacciSendGoalRequest)
  | fibonacciSendGoalResponse => do
    let accepted ← readBool
    let sec ← readI32
    let nanosec ← readU32
    return ({ accepted, stamp := { sec, nanosec } } : Msgs.FibonacciSendGoalResponse)
  | fibonacciGetResultRequest => do
    return ({ goalId := ← readUuid } : Msgs.FibonacciGetResultRequest)
  | fibonacciGetResultResponse => do
    let status ← readU8
    let result ← readFibonacciResult
    return ({ status := status.toInt8, result } : Msgs.FibonacciGetResultResponse)
  | fibonacciFeedbackMessage => do
    return ({ goalId := ← readUuid, feedback := ← readFibonacciResult }
      : Msgs.FibonacciFeedbackMessage)
  | actionMsgsGoalStatus => readGoalStatus
  | actionMsgsGoalStatusArray => do
    return ({ statusList := ← readSequence readGoalStatus Msgs.goalStatusMax }
      : Msgs.ActionMsgsGoalStatusArray)
  | actionMsgsCancelGoalRequest => do
    return ({ goalInfo := ← readGoalInfo } : Msgs.ActionMsgsCancelGoalRequest)
  | actionMsgsCancelGoalResponse => do
    let returnCode ← readU8
    let goalsCanceling ← readSequence readGoalInfo Msgs.goalStatusMax
    return ({ returnCode := returnCode.toInt8, goalsCanceling }
      : Msgs.ActionMsgsCancelGoalResponse)
  | diagnosticMsgsDiagnosticArray => do
    let sec ← readI32
    let nanosec ← readU32
    let frameId ← readString Msgs.frameIdMax
    let status ← readSequence readDiagnosticStatus Msgs.diagStatusMax
    return ({ header := { stamp := { sec, nanosec }, frameId }, status }
      : Msgs.DiagnosticMsgsDiagnosticArray)

def Decoder.run (d : Decoder) : (Nat → UInt8) → Size t → Option d.Message × Cursor t :=
  decode d.body

/-! ## Parsers -/

/-- `skip_message_header`. -/
def skipMessageHeader : Traced t Unit := do
  let c ← get
  if c.len < 2 then failure
  note [.input 0]
  let headerLen : Size t := BitVec.ofNat _ (Session.headerLen (c.buf 0))
  if c.len < headerLen then failure
  modify fun c => { c with pos := headerLen }

/-- `read_u16`. -/
def readU16 : Traced t UInt16 := do
  let v ← readI16
  return v.toUInt16

/-- `read_object_id`. -/
def readObjectId : Traced t ObjectId := do
  let raw ← readBytes 2 2
  let hi := raw.get ⟨0, Nat.zero_lt_two⟩
  let lo := raw.get ⟨1, Nat.one_lt_two⟩
  return { id := hi.toUInt16 <<< 4 ||| (lo >>> 4).toUInt16, kind := lo &&& 0x0F }

/-- The frame of every parser. -/
def parse (submessageId : UInt8) (body : Traced t α) (buf : Nat → UInt8) (len : Size t) :
    Option α × Cursor t :=
  Fallible.exec (do
    skipMessageHeader
    let id ← readU8
    let _flags ← readU8
    let _subLen ← readU16
    if id ≠ submessageId then failure
    body) (readerInit buf len)

def readStatus : Traced t Bool := do
  let status ← readU8
  return status = Session.statusOk ∨ status = Session.statusOkMatched

/-- `xrce_session_parse_create_client_reply`. -/
def parseCreateClientReply : (Nat → UInt8) → Size t → Option Bool × Cursor t :=
  parse Session.submsgStatusAgent readStatus

/-- `parse_status_reply`. -/
def parseStatusReply : (Nat → UInt8) → Size t → Option Bool × Cursor t :=
  parse Session.submsgStatus do
    let _relatedRequest ← readBytes 4 4
    readStatus

/-- `xrce_session_parse_create_reply`. -/
def parseCreateReply : (Nat → UInt8) → Size t → Option Bool × Cursor t := parseStatusReply

/-- `xrce_session_parse_delete_reply`. -/
def parseDeleteReply : (Nat → UInt8) → Size t → Option Bool × Cursor t := parseStatusReply

/-- `xrce_session_parse_data`. -/
def parseData : (Nat → UInt8) → Size t → Option Session.Data × Cursor t :=
  parse Session.submsgData do
    let _requestIdRaw ← readBytes 2 2
    let objectId ← readObjectId
    let c ← get
    return { objectId, sampleStart := c.pos.toNat, sampleLen := (c.len - c.pos).toNat }

/-- `xrce_session_parse_acknack`. -/
def parseAcknack : (Nat → UInt8) → Size t → Option Session.Acknack × Cursor t :=
  parse Session.submsgAcknack do
    let firstUnacked ← readU16
    let bitmapBytes ← readBytes 2 2
    let _targetStream ← readU8
    return { firstUnacked, bitmap := gatherU16 bitmapBytes }

/-! ## Calls in any order -/

/-- A call of one of the `xrce_cdr_read` functions and its arguments. -/
inductive Call (t : Target) where
  | header
  | bool
  | u8
  | i16
  | bytes (len : Size t)
  | i32
  | u32
  | f64
  | string (outCap : Size t)
  | seqI32 (outCap : Size t)

/-- The reader after a call, successful or not; `xrce_cdr_read_bytes` is given `len` bytes to fill.
-/
def Call.run : Call t → Cursor t → Cursor t
  | header, c => (Fallible.exec readHeader c).2
  | bool, c => (Fallible.exec readBool c).2
  | u8, c => (Fallible.exec readU8 c).2
  | i16, c => (Fallible.exec readI16 c).2
  | bytes len, c => (Fallible.exec (readBytes len.toNat len.toNat) c).2
  | i32, c => (Fallible.exec readI32 c).2
  | u32, c => (Fallible.exec readU32 c).2
  | f64, c => (Fallible.exec readF64 c).2
  | string outCap, c => (Fallible.exec (readString outCap.toNat) c).2
  | seqI32 outCap, c => (Fallible.exec (readSeqI32 outCap.toNat) c).2

def runAll (calls : List (Call t)) (c : Cursor t) : Cursor t :=
  calls.foldl (fun c call => call.run c) c

end RtosXrce.Xrce.Memory
