import RtosXrce.Xrce.CdrLayout
import RtosXrce.Xrce.Msgs

/-!
# Every message type decodes what it encodes

`Coded write read a`: the two sides agree on one format for `a`, and `a` has an encoding at every
offset. It follows the nesting of the messages, so that an encoder and a decoder that differed in
the order, the width or the bounds of a field would have no such proof.
-/

namespace RtosXrce.Xrce.Msgs

open Library Cdr

def Coded {α : Type} (write : Write Unit) (read : Read α) (a : α) : Prop :=
  ∃ f : Format, Emits write f ∧ Reads read f a ∧ f.Defined

theorem Coded.pure {α : Type} (a : α) : Coded (Pure.pure ()) (Pure.pure a) a :=
  ⟨Format.nil, .pure, .pure a, Format.defined_raw []⟩

theorem Coded.map {α β : Type} {write : Write Unit} {read : Read α} {a : α}
    (h : Coded write read a) (g : α → β) :
    Coded write (do let a ← read; return g a) (g a) := by
  obtain ⟨f, hemits, hreads, hdefined⟩ := h
  exact ⟨f, hemits, hreads.map g, hdefined⟩

theorem Coded.seq {α β : Type} {write write' : Write Unit} {read : Read α} {k : α → Read β}
    {a : α} {b : β} (h : Coded write read a) (h' : Coded write' (k a) b) :
    Coded (do write; write') (read >>= k) b := by
  obtain ⟨f, hemits, hreads, hdefined⟩ := h
  obtain ⟨g, hemits', hreads', hdefined'⟩ := h'
  exact ⟨f.seq g, hemits.seq hemits', hreads.bind hreads', hdefined.seq hdefined'⟩

/-! ## Fields -/

theorem coded_u8 (v : UInt8) : Coded (writeU8 v) readU8 v :=
  ⟨_, emits_u8 v, reads_u8 v, Format.defined_aligned _ _⟩

theorem coded_bool (v : Bool) : Coded (writeBool v) readBool v :=
  ⟨_, emits_u8 _, reads_bool v, Format.defined_aligned _ _⟩

theorem coded_u32 (v : UInt32) : Coded (writeU32 v) readU32 v :=
  ⟨_, emits_u32 v, reads_u32 v, Format.defined_aligned _ _⟩

theorem coded_i32 (v : Int32) : Coded (writeI32 v) readI32 v :=
  ⟨_, emits_i32 v, reads_i32 v, Format.defined_aligned _ _⟩

theorem coded_f64 (bits : UInt64) : Coded (writeF64 bits) readF64 bits :=
  ⟨_, emits_f64 bits, reads_f64 bits, Format.defined_aligned _ _⟩

theorem coded_bytes {n : Nat} (v : Vector UInt8 n) : Coded (writeBytes v.toList) (readBytes n) v :=
  ⟨_, emits_emit v.toList, reads_fetch v, Format.defined_raw _⟩

theorem coded_string {n : Nat} (hn : n < 2 ^ 32) (s : FixedString n) :
    Coded (writeString s.toCString) (readString n) s := by
  refine ⟨_, emits_string s.toCString, reads_string s, ?_⟩
  have hfits := s.fits
  rw [stringFormat, if_pos (by omega)]
  exact (Format.defined_aligned _ _).seq (Format.defined_raw _)

section

variable {α : Type} {write : α → Write Unit} {read : Read α}

theorem coded_many (h : ∀ a, Coded (write a) read a) (l : List α) {n : Nat} (hn : l.length = n) :
    Coded (l.forM write) (readMany read n) ⟨l, hn⟩ := by
  choose f hemits hreads hdefined using h
  refine ⟨_, .forM hemits l, reads_many hreads l hn, .seqAll fun g hg => ?_⟩
  obtain ⟨a, -, rfl⟩ := List.mem_map.mp hg
  exact hdefined a

theorem coded_sequence (h : ∀ a, Coded (write a) read a) {n : Nat} (s : Counted α n) :
    Coded (writeSequence write s.toSequence) (readSequence read n) s := by
  choose f hemits hreads hdefined using h
  refine ⟨_, emits_sequence hemits s.toSequence, reads_sequence hreads s,
    (Format.defined_aligned _ _).seq (.seqAll fun g hg => ?_)⟩
  obtain ⟨a, -, rfl⟩ := List.mem_map.mp hg
  exact hdefined a

end

/-! ## Parts shared by several messages -/

theorem coded_vec3 (v : GeometryMsgsVector3) : Coded (writeVec3 v) readVec3 v :=
  (coded_f64 v.x).seq ((coded_f64 v.y).seq ((coded_f64 v.z).map _))

theorem coded_cov (cov : Vector UInt64 9) : Coded (writeCov cov) readCov cov := by
  have hcoded := (coded_many coded_f64 cov.toList cov.length_toList).map
    fun l => (⟨l.val.toArray, by simp [l.property]⟩ : Vector UInt64 9)
  exact hcoded

theorem coded_fibonacciResult (v : FibonacciResult) :
    Coded (writeFibonacciResult v) readFibonacciResult v :=
  (coded_sequence coded_i32 v.sequence).map _

theorem coded_goalInfo (v : ActionMsgsGoalInfo) : Coded (writeGoalInfo v) readGoalInfo v :=
  (coded_bytes v.goalId).seq ((coded_i32 v.stamp.sec).seq ((coded_u32 v.stamp.nanosec).map _))

theorem coded_goalStatus (v : ActionMsgsGoalStatus) : Coded (writeGoalStatus v) readGoalStatus v :=
  (coded_goalInfo v.goalInfo).seq ((coded_u8 v.status.toUInt8).map fun status =>
    ActionMsgsGoalStatus.mk v.goalInfo status.toInt8)

theorem coded_keyValue (kv : DiagnosticMsgsKeyValue) : Coded (writeKeyValue kv) readKeyValue kv :=
  (coded_string (by decide) kv.key).seq ((coded_string (by decide) kv.value).map _)

theorem coded_diagnosticStatus (s : DiagnosticMsgsDiagnosticStatus) :
    Coded (writeDiagnosticStatus s) readDiagnosticStatus s :=
  (coded_u8 s.level).seq <| (coded_string (by decide) s.name).seq <|
    (coded_string (by decide) s.message).seq <| (coded_string (by decide) s.hardwareId).seq <|
    (coded_sequence coded_keyValue s.values).map _

/-! ## Messages -/

/-- Every value has an encoding `e`: the encoder writes it, at any capacity it fits, over whatever
the buffer held; the decoder returns the value from `e` followed by anything, and fails on every
proper prefix of `e`. -/
def Inverse {α : Type} (encode : α → (Nat → UInt8) → Nat → Option Nat × (Nat → UInt8))
    (decode : (Nat → UInt8) → Nat → Option α) : Prop :=
  ∀ m, ∃ e : Bytes,
    (∀ buf cap, e.length ≤ cap → ∃ buf', encode m buf cap = (some e.length, buf') ∧
      bytesOf buf' e.length = e) ∧
    (∀ buf len t, bytesOf buf len = e ++ t → decode buf len = some m) ∧
    ∀ buf len, bytesOf buf len <+: e → bytesOf buf len ≠ e → decode buf len = none

theorem Coded.inverse {α : Type} {write : α → Write Unit} {read : Read α}
    (h : ∀ a, Coded (write a) read a) :
    Inverse (fun a => Msgs.encode (write a)) (Msgs.decode read) := by
  intro m
  obtain ⟨f, hemits, hreads, hdefined⟩ := h m
  obtain ⟨body, hbody⟩ := hdefined 0
  have href : (f 0).map (encapsulation ++ ·) = some (encapsulation ++ body) := by
    rw [hbody]
    rfl
  refine ⟨encapsulation ++ body, ?_, ?_, ?_⟩
  · intro buf cap hcap
    obtain ⟨w, hexec, hwritten, -⟩ := hemits.writes_header.fits buf cap href hcap
    have hpos : (encapsulation ++ body).length = w.pos := by
      rw [← hwritten]
      exact w.length_written
    refine ⟨w.buf, ?_, ?_⟩
    · rw [hpos]
      simp only [Msgs.encode, hexec, Option.map_some]
    · rw [hpos]
      exact hwritten
  · intro buf len t hbytes
    obtain ⟨r, hread, -⟩ := hreads.parses_header.takes buf len href
      ((rest_readerInit buf len).trans hbytes)
    simp only [Msgs.decode, hread]
  · intro buf len hpre hne
    rw [← rest_readerInit] at hpre hne
    obtain ⟨r, hread⟩ := hreads.parses_header.truncated buf len href hpre hne
    simp only [Msgs.decode, hread]

theorem coded_imu (msg : SensorMsgsImu) : Coded msg.write SensorMsgsImu.read msg :=
  (coded_i32 msg.header.stamp.sec).seq <| (coded_u32 msg.header.stamp.nanosec).seq <|
    (coded_string (by decide) msg.header.frameId).seq <|
    (coded_f64 msg.orientation.x).seq <| (coded_f64 msg.orientation.y).seq <|
    (coded_f64 msg.orientation.z).seq <| (coded_f64 msg.orientation.w).seq <|
    (coded_cov msg.orientationCovariance).seq <| (coded_vec3 msg.angularVelocity).seq <|
    (coded_cov msg.angularVelocityCovariance).seq <| (coded_vec3 msg.linearAcceleration).seq <|
    (coded_cov msg.linearAccelerationCovariance).map _

theorem inverse_int32 : Inverse StdMsgsInt32.encode StdMsgsInt32.decode :=
  Coded.inverse fun msg => (coded_i32 msg.data).map _

theorem inverse_string : Inverse StdMsgsString.encode StdMsgsString.decode :=
  Coded.inverse fun msg => (coded_string (by decide) msg.data).map _

theorem inverse_imu : Inverse SensorMsgsImu.encode SensorMsgsImu.decode := Coded.inverse coded_imu

theorem inverse_twist : Inverse GeometryMsgsTwist.encode GeometryMsgsTwist.decode :=
  Coded.inverse fun msg => (coded_vec3 msg.linear).seq ((coded_vec3 msg.angular).map _)

theorem inverse_triggerRequest :
    Inverse StdSrvsTriggerRequest.encode StdSrvsTriggerRequest.decode :=
  Coded.inverse Coded.pure

theorem inverse_triggerResponse :
    Inverse StdSrvsTriggerResponse.encode StdSrvsTriggerResponse.decode :=
  Coded.inverse fun msg =>
    (coded_bool msg.success).seq ((coded_string (by decide) msg.message).map _)

theorem inverse_sendGoalRequest :
    Inverse FibonacciSendGoalRequest.encode FibonacciSendGoalRequest.decode :=
  Coded.inverse fun msg => (coded_bytes msg.goalId).seq ((coded_i32 msg.order).map _)

theorem inverse_sendGoalResponse :
    Inverse FibonacciSendGoalResponse.encode FibonacciSendGoalResponse.decode :=
  Coded.inverse fun msg => (coded_bool msg.accepted).seq <| (coded_i32 msg.stamp.sec).seq <|
    (coded_u32 msg.stamp.nanosec).map _

theorem inverse_getResultRequest :
    Inverse FibonacciGetResultRequest.encode FibonacciGetResultRequest.decode :=
  Coded.inverse fun msg => (coded_bytes msg.goalId).map _

theorem inverse_getResultResponse :
    Inverse FibonacciGetResultResponse.encode FibonacciGetResultResponse.decode :=
  Coded.inverse fun msg => (coded_u8 msg.status.toUInt8).seq <|
    (coded_fibonacciResult msg.result).map (FibonacciGetResultResponse.mk msg.status)

theorem inverse_feedbackMessage :
    Inverse FibonacciFeedbackMessage.encode FibonacciFeedbackMessage.decode :=
  Coded.inverse fun msg => (coded_bytes msg.goalId).seq ((coded_fibonacciResult msg.feedback).map _)

theorem inverse_goalStatus : Inverse ActionMsgsGoalStatus.encode ActionMsgsGoalStatus.decode :=
  Coded.inverse coded_goalStatus

theorem inverse_goalStatusArray :
    Inverse ActionMsgsGoalStatusArray.encode ActionMsgsGoalStatusArray.decode :=
  Coded.inverse fun msg => (coded_sequence coded_goalStatus msg.statusList).map _

theorem inverse_cancelGoalRequest :
    Inverse ActionMsgsCancelGoalRequest.encode ActionMsgsCancelGoalRequest.decode :=
  Coded.inverse fun msg => (coded_goalInfo msg.goalInfo).map _

theorem inverse_cancelGoalResponse :
    Inverse ActionMsgsCancelGoalResponse.encode ActionMsgsCancelGoalResponse.decode :=
  Coded.inverse fun msg => (coded_u8 msg.returnCode.toUInt8).seq <|
    (coded_sequence coded_goalInfo msg.goalsCanceling).map
      (ActionMsgsCancelGoalResponse.mk msg.returnCode)

theorem inverse_diagnosticArray :
    Inverse DiagnosticMsgsDiagnosticArray.encode DiagnosticMsgsDiagnosticArray.decode :=
  Coded.inverse fun msg => (coded_i32 msg.header.stamp.sec).seq <|
    (coded_u32 msg.header.stamp.nanosec).seq <|
    (coded_string (by decide) msg.header.frameId).seq <|
    (coded_sequence coded_diagnosticStatus msg.status).map _

/-- All sixteen encoder and decoder pairs are inverse to each other and self-delimiting. -/
theorem messages_inverse :
    Inverse StdMsgsInt32.encode StdMsgsInt32.decode ∧
    Inverse StdMsgsString.encode StdMsgsString.decode ∧
    Inverse SensorMsgsImu.encode SensorMsgsImu.decode ∧
    Inverse GeometryMsgsTwist.encode GeometryMsgsTwist.decode ∧
    Inverse StdSrvsTriggerRequest.encode StdSrvsTriggerRequest.decode ∧
    Inverse StdSrvsTriggerResponse.encode StdSrvsTriggerResponse.decode ∧
    Inverse FibonacciSendGoalRequest.encode FibonacciSendGoalRequest.decode ∧
    Inverse FibonacciSendGoalResponse.encode FibonacciSendGoalResponse.decode ∧
    Inverse FibonacciGetResultRequest.encode FibonacciGetResultRequest.decode ∧
    Inverse FibonacciGetResultResponse.encode FibonacciGetResultResponse.decode ∧
    Inverse FibonacciFeedbackMessage.encode FibonacciFeedbackMessage.decode ∧
    Inverse ActionMsgsGoalStatus.encode ActionMsgsGoalStatus.decode ∧
    Inverse ActionMsgsGoalStatusArray.encode ActionMsgsGoalStatusArray.decode ∧
    Inverse ActionMsgsCancelGoalRequest.encode ActionMsgsCancelGoalRequest.decode ∧
    Inverse ActionMsgsCancelGoalResponse.encode ActionMsgsCancelGoalResponse.decode ∧
    Inverse DiagnosticMsgsDiagnosticArray.encode DiagnosticMsgsDiagnosticArray.decode :=
  ⟨inverse_int32, inverse_string, inverse_imu, inverse_twist, inverse_triggerRequest,
    inverse_triggerResponse, inverse_sendGoalRequest, inverse_sendGoalResponse,
    inverse_getResultRequest, inverse_getResultResponse, inverse_feedbackMessage,
    inverse_goalStatus, inverse_goalStatusArray, inverse_cancelGoalRequest,
    inverse_cancelGoalResponse, inverse_diagnosticArray⟩

end RtosXrce.Xrce.Msgs
