import RtosXrce.Xrce.Cdr

/-!
# Message types and their CDR encodings

`xrce/src/msgs.c` and `xrce/include/xrce/msgs.h`. A field `char[n]` is the terminated string it
holds, and an array with its count the elements in use; nothing here reads the rest of either.
-/

namespace RtosXrce.Xrce.Msgs

open Library Cdr

/-- `XRCE_MSGS_FRAME_ID_MAX`. -/
abbrev frameIdMax : Nat := 64

/-- `XRCE_MSGS_STRING_MAX`. -/
abbrev stringMax : Nat := 256

/-- `XRCE_MSGS_UUID_SIZE`. -/
abbrev uuidSize : Nat := 16

/-- `XRCE_MSGS_SEQ_I32_MAX`. -/
abbrev seqI32Max : Nat := 16

/-- `XRCE_MSGS_GOAL_STATUS_MAX`. -/
abbrev goalStatusMax : Nat := 8

/-- `XRCE_MSGS_KV_MAX`. -/
abbrev kvMax : Nat := 8

/-- `XRCE_MSGS_DIAG_STATUS_MAX`. -/
abbrev diagStatusMax : Nat := 16

/-- `XRCE_MSGS_DIAG_STR_MAX`. -/
abbrev diagStrMax : Nat := 64

/-- The frame of every `_encode`: `*out_len`, and the buffer as it is left. -/
def encode (body : Write Unit) (buf : Nat → UInt8) (cap : Nat) : Option Nat × (Nat → UInt8) :=
  let (result, w) := Fallible.exec (do writeHeader; body) (writerInit buf cap)
  (result.map fun _ => w.pos, w.buf)

/-- The frame of every `_decode`. -/
def decode {α : Type} (body : Read α) (buf : Nat → UInt8) (len : Nat) : Option α :=
  (Fallible.exec (do readHeader; body) (readerInit buf len)).1

/-! ## `std_msgs`, `geometry_msgs` and `sensor_msgs` -/

structure StdMsgsInt32 where
  data : Int32

def StdMsgsInt32.encode (msg : StdMsgsInt32) := Msgs.encode (writeI32 msg.data)

def StdMsgsInt32.decode := Msgs.decode do
  return ({ data := ← readI32 } : StdMsgsInt32)

structure StdMsgsString where
  data : FixedString stringMax

def StdMsgsString.encode (msg : StdMsgsString) := Msgs.encode (writeString msg.data.toCString)

def StdMsgsString.decode := Msgs.decode do
  return ({ data := ← readString stringMax } : StdMsgsString)

structure GeometryMsgsQuaternion where
  x : UInt64
  y : UInt64
  z : UInt64
  w : UInt64

structure GeometryMsgsVector3 where
  x : UInt64
  y : UInt64
  z : UInt64

structure BuiltinInterfacesTime where
  sec : Int32
  nanosec : UInt32

structure StdMsgsHeader where
  stamp : BuiltinInterfacesTime
  frameId : FixedString frameIdMax

structure SensorMsgsImu where
  header : StdMsgsHeader
  orientation : GeometryMsgsQuaternion
  orientationCovariance : Vector UInt64 9
  angularVelocity : GeometryMsgsVector3
  angularVelocityCovariance : Vector UInt64 9
  linearAcceleration : GeometryMsgsVector3
  linearAccelerationCovariance : Vector UInt64 9

/-- `write_vec3`. -/
def writeVec3 (v : GeometryMsgsVector3) : Write Unit := do
  writeF64 v.x
  writeF64 v.y
  writeF64 v.z

/-- `read_vec3`. -/
def readVec3 : Read GeometryMsgsVector3 := do
  return { x := ← readF64, y := ← readF64, z := ← readF64 }

/-- `write_cov`. -/
def writeCov (cov : Vector UInt64 9) : Write Unit := cov.toList.forM writeF64

/-- `read_cov`. -/
def readCov : Read (Vector UInt64 9) := do
  let l ← readMany readF64 9
  return ⟨l.val.toArray, by simp [l.property]⟩

def SensorMsgsImu.write (msg : SensorMsgsImu) : Write Unit := do
  writeI32 msg.header.stamp.sec
  writeU32 msg.header.stamp.nanosec
  writeString msg.header.frameId.toCString
  writeF64 msg.orientation.x
  writeF64 msg.orientation.y
  writeF64 msg.orientation.z
  writeF64 msg.orientation.w
  writeCov msg.orientationCovariance
  writeVec3 msg.angularVelocity
  writeCov msg.angularVelocityCovariance
  writeVec3 msg.linearAcceleration
  writeCov msg.linearAccelerationCovariance

def SensorMsgsImu.read : Read SensorMsgsImu := do
  let sec ← readI32
  let nanosec ← readU32
  let frameId ← readString frameIdMax
  let x ← readF64
  let y ← readF64
  let z ← readF64
  let w ← readF64
  let orientationCovariance ← readCov
  let angularVelocity ← readVec3
  let angularVelocityCovariance ← readCov
  let linearAcceleration ← readVec3
  let linearAccelerationCovariance ← readCov
  return {
    header := { stamp := { sec, nanosec }, frameId }
    orientation := { x, y, z, w }
    orientationCovariance, angularVelocity, angularVelocityCovariance, linearAcceleration,
    linearAccelerationCovariance }

def SensorMsgsImu.encode (msg : SensorMsgsImu) := Msgs.encode msg.write

def SensorMsgsImu.decode := Msgs.decode SensorMsgsImu.read

structure GeometryMsgsTwist where
  linear : GeometryMsgsVector3
  angular : GeometryMsgsVector3

def GeometryMsgsTwist.encode (msg : GeometryMsgsTwist) := Msgs.encode do
  writeVec3 msg.linear
  writeVec3 msg.angular

def GeometryMsgsTwist.decode := Msgs.decode do
  return ({ linear := ← readVec3, angular := ← readVec3 } : GeometryMsgsTwist)

/-! ## `std_srvs` -/

/-- The field `_unused` is never read. -/
structure StdSrvsTriggerRequest where

def StdSrvsTriggerRequest.encode (_msg : StdSrvsTriggerRequest) := Msgs.encode (pure ())

def StdSrvsTriggerRequest.decode := Msgs.decode do
  return ({} : StdSrvsTriggerRequest)

structure StdSrvsTriggerResponse where
  success : Bool
  message : FixedString stringMax

def StdSrvsTriggerResponse.encode (msg : StdSrvsTriggerResponse) := Msgs.encode do
  writeBool msg.success
  writeString msg.message.toCString

def StdSrvsTriggerResponse.decode := Msgs.decode do
  return ({ success := ← readBool, message := ← readString stringMax } : StdSrvsTriggerResponse)

/-! ## `example_interfaces` -/

abbrev Uuid := Vector UInt8 uuidSize

structure FibonacciResult where
  sequence : Counted Int32 seqI32Max

abbrev FibonacciFeedback := FibonacciResult

/-- `write_fibonacci_result`. -/
def writeFibonacciResult (v : FibonacciResult) : Write Unit := writeSeqI32 v.sequence.toSequence

/-- `read_fibonacci_result`. -/
def readFibonacciResult : Read FibonacciResult := do
  return { sequence := ← readSeqI32 seqI32Max }

structure FibonacciSendGoalRequest where
  goalId : Uuid
  order : Int32

def FibonacciSendGoalRequest.encode (msg : FibonacciSendGoalRequest) := Msgs.encode do
  writeBytes msg.goalId.toList
  writeI32 msg.order

def FibonacciSendGoalRequest.decode := Msgs.decode do
  return ({ goalId := ← readBytes uuidSize, order := ← readI32 } : FibonacciSendGoalRequest)

structure FibonacciSendGoalResponse where
  accepted : Bool
  stamp : BuiltinInterfacesTime

def FibonacciSendGoalResponse.encode (msg : FibonacciSendGoalResponse) := Msgs.encode do
  writeBool msg.accepted
  writeI32 msg.stamp.sec
  writeU32 msg.stamp.nanosec

def FibonacciSendGoalResponse.decode := Msgs.decode do
  let accepted ← readBool
  let sec ← readI32
  let nanosec ← readU32
  return ({ accepted, stamp := { sec, nanosec } } : FibonacciSendGoalResponse)

structure FibonacciGetResultRequest where
  goalId : Uuid

def FibonacciGetResultRequest.encode (msg : FibonacciGetResultRequest) :=
  Msgs.encode (writeBytes msg.goalId.toList)

def FibonacciGetResultRequest.decode := Msgs.decode do
  return ({ goalId := ← readBytes uuidSize } : FibonacciGetResultRequest)

structure FibonacciGetResultResponse where
  status : Int8
  result : FibonacciResult

def FibonacciGetResultResponse.encode (msg : FibonacciGetResultResponse) := Msgs.encode do
  writeU8 msg.status.toUInt8
  writeFibonacciResult msg.result

def FibonacciGetResultResponse.decode := Msgs.decode do
  let status ← readU8
  let result ← readFibonacciResult
  return ({ status := status.toInt8, result } : FibonacciGetResultResponse)

structure FibonacciFeedbackMessage where
  goalId : Uuid
  feedback : FibonacciFeedback

def FibonacciFeedbackMessage.encode (msg : FibonacciFeedbackMessage) := Msgs.encode do
  writeBytes msg.goalId.toList
  writeFibonacciResult msg.feedback

def FibonacciFeedbackMessage.decode := Msgs.decode do
  return ({ goalId := ← readBytes uuidSize, feedback := ← readFibonacciResult }
    : FibonacciFeedbackMessage)

/-! ## `action_msgs` -/

structure ActionMsgsGoalInfo where
  goalId : Uuid
  stamp : BuiltinInterfacesTime

structure ActionMsgsGoalStatus where
  goalInfo : ActionMsgsGoalInfo
  status : Int8

/-- `write_goal_info`. -/
def writeGoalInfo (v : ActionMsgsGoalInfo) : Write Unit := do
  writeBytes v.goalId.toList
  writeI32 v.stamp.sec
  writeU32 v.stamp.nanosec

/-- `read_goal_info`. -/
def readGoalInfo : Read ActionMsgsGoalInfo := do
  let goalId ← readBytes uuidSize
  let sec ← readI32
  let nanosec ← readU32
  return { goalId, stamp := { sec, nanosec } }

/-- `write_goal_status`. -/
def writeGoalStatus (v : ActionMsgsGoalStatus) : Write Unit := do
  writeGoalInfo v.goalInfo
  writeU8 v.status.toUInt8

/-- `read_goal_status`. -/
def readGoalStatus : Read ActionMsgsGoalStatus := do
  let goalInfo ← readGoalInfo
  let status ← readU8
  return { goalInfo, status := status.toInt8 }

def ActionMsgsGoalStatus.encode (msg : ActionMsgsGoalStatus) := Msgs.encode (writeGoalStatus msg)

def ActionMsgsGoalStatus.decode := Msgs.decode readGoalStatus

structure ActionMsgsGoalStatusArray where
  statusList : Counted ActionMsgsGoalStatus goalStatusMax

def ActionMsgsGoalStatusArray.encode (msg : ActionMsgsGoalStatusArray) :=
  Msgs.encode (writeSequence writeGoalStatus msg.statusList.toSequence)

def ActionMsgsGoalStatusArray.decode := Msgs.decode do
  return ({ statusList := ← readSequence readGoalStatus goalStatusMax }
    : ActionMsgsGoalStatusArray)

structure ActionMsgsCancelGoalRequest where
  goalInfo : ActionMsgsGoalInfo

def ActionMsgsCancelGoalRequest.encode (msg : ActionMsgsCancelGoalRequest) :=
  Msgs.encode (writeGoalInfo msg.goalInfo)

def ActionMsgsCancelGoalRequest.decode := Msgs.decode do
  return ({ goalInfo := ← readGoalInfo } : ActionMsgsCancelGoalRequest)

structure ActionMsgsCancelGoalResponse where
  returnCode : Int8
  goalsCanceling : Counted ActionMsgsGoalInfo goalStatusMax

def ActionMsgsCancelGoalResponse.encode (msg : ActionMsgsCancelGoalResponse) := Msgs.encode do
  writeU8 msg.returnCode.toUInt8
  writeSequence writeGoalInfo msg.goalsCanceling.toSequence

def ActionMsgsCancelGoalResponse.decode := Msgs.decode do
  let returnCode ← readU8
  let goalsCanceling ← readSequence readGoalInfo goalStatusMax
  return ({ returnCode := returnCode.toInt8, goalsCanceling } : ActionMsgsCancelGoalResponse)

/-! ## `diagnostic_msgs` -/

structure DiagnosticMsgsKeyValue where
  key : FixedString diagStrMax
  value : FixedString diagStrMax

structure DiagnosticMsgsDiagnosticStatus where
  level : UInt8
  name : FixedString diagStrMax
  message : FixedString diagStrMax
  hardwareId : FixedString diagStrMax
  values : Counted DiagnosticMsgsKeyValue kvMax

structure DiagnosticMsgsDiagnosticArray where
  header : StdMsgsHeader
  status : Counted DiagnosticMsgsDiagnosticStatus diagStatusMax

/-- `write_key_value`. -/
def writeKeyValue (kv : DiagnosticMsgsKeyValue) : Write Unit := do
  writeString kv.key.toCString
  writeString kv.value.toCString

/-- `read_key_value`. -/
def readKeyValue : Read DiagnosticMsgsKeyValue := do
  return { key := ← readString diagStrMax, value := ← readString diagStrMax }

/-- `write_diagnostic_status`. -/
def writeDiagnosticStatus (s : DiagnosticMsgsDiagnosticStatus) : Write Unit := do
  writeU8 s.level
  writeString s.name.toCString
  writeString s.message.toCString
  writeString s.hardwareId.toCString
  writeSequence writeKeyValue s.values.toSequence

/-- `read_diagnostic_status`. -/
def readDiagnosticStatus : Read DiagnosticMsgsDiagnosticStatus := do
  let level ← readU8
  let name ← readString diagStrMax
  let message ← readString diagStrMax
  let hardwareId ← readString diagStrMax
  let values ← readSequence readKeyValue kvMax
  return { level, name, message, hardwareId, values }

def DiagnosticMsgsDiagnosticArray.encode (msg : DiagnosticMsgsDiagnosticArray) := Msgs.encode do
  writeI32 msg.header.stamp.sec
  writeU32 msg.header.stamp.nanosec
  writeString msg.header.frameId.toCString
  writeSequence writeDiagnosticStatus msg.status.toSequence

def DiagnosticMsgsDiagnosticArray.decode := Msgs.decode do
  let sec ← readI32
  let nanosec ← readU32
  let frameId ← readString frameIdMax
  let status ← readSequence readDiagnosticStatus diagStatusMax
  return ({ header := { stamp := { sec, nanosec }, frameId }, status }
    : DiagnosticMsgsDiagnosticArray)

end RtosXrce.Xrce.Msgs
