import RtosXrce.Xrce.SessionReplies

/-!
# The messages without a number

CREATE_CLIENT and HEARTBEAT stand outside of the numbering: their builders only read the session.
Both are a header, the header of a submessage and a body, as the numbered messages are, with the
header of a session of their own.
-/

namespace RtosXrce.Xrce.Session

open Library Library.Fallible Cdr

section Control

variable {header payload : Session → Write Unit} {s t : Session} {stream : UInt8}
  (hheader : header s = writeMessageHeader t.sessionId stream t.outSeqNum t.clientKey)
  {f : Format} (hpayload : Emits (payload s) f) {body : Bytes} (hbody : f 12 = some body)
  (id : UInt8) (buf : Nat → UInt8) {cap : Nat}
include hheader hpayload hbody

/-- A message whose header is that of a numbered message of the session `t`. -/
theorem buildControl_fits (hcap : 12 + body.length ≤ cap) :
    buildControl header payload id s buf cap = ⟨12 + body.length, s,
      store buf 0 (prefixBytes t id stream (UInt16.ofNat body.length) ++ body)⟩ := by
  have hlen : (prefixBytes t id stream 0).length = 12 := length_prefixBytes _ _ _ _
  have hsub := exec_submessageHeaderAt (length_headerBytes t.sessionId stream t.outSeqNum
    t.clientKey) buf id flagEndiannessLe (show 12 ≤ cap by omega)
  have hexec := hpayload.fits (wf_put_writerInit buf (show (prefixBytes t id stream 0).length ≤ cap
      by omega)) (by rw [off_put_writerInit, hlen]; exact hbody)
    (by rw [room_put_writerInit, hlen]; omega)
  have hstart : ((writerInit buf cap).put (prefixBytes t id stream 0)).pos = 12 :=
    (Nat.zero_add _).trans hlen
  have hend : ((writerInit buf cap).put (prefixBytes t id stream 0 ++ body)).pos =
      12 + body.length := by
    simp only [Writer.put, writerInit, List.length_append, hlen]
    omega
  rw [buildControl, hheader, exec_messageHeader _ _ _ _ buf (by omega)]
  simp only [hsub]
  rw [← prefixBytes, hexec, Writer.put_append]
  simp only [hstart, hend, Nat.add_sub_cancel_left, Built.mk.injEq, true_and]
  exact backpatchLength_prefix buf t id stream body.length body

end Control

/-- The body of CREATE_CLIENT. -/
def clientBytes (s : Session) : Bytes :=
  [0x58, 0x52, 0x43, 0x45, 0x01, 0x00, 0x01, 0x0F] ++ s.clientKey.toList ++ [s.sessionId, 0] ++
    littleEndian 2 s.mtu.toBitVec

theorem length_clientBytes (s : Session) : s.clientBytes.length = 16 := by
  simp [clientBytes]

theorem buildCreateClient_fits (s : Session) (buf : Nat → UInt8) {cap : Nat} (hcap : 28 ≤ cap) :
    buildCreateClient s buf cap = ⟨28, s, store buf 0
      (prefixBytes (init 0 s.clientKey 0) submsgCreateClient 0 16 ++ s.clientBytes)⟩ := by
  have hlen := length_clientBytes s
  have hpayload : Emits (do
      writeBytes [0x58, 0x52, 0x43, 0x45]
      writeBytes [0x01, 0x00]
      writeBytes [0x01, 0x0F]
      writeBytes s.clientKey.toList
      writeU8 s.sessionId
      writeBool false
      writeU16 s.mtu) _ :=
    (emits_emit _).seq <| (emits_emit _).seq <| (emits_emit _).seq <| (emits_emit _).seq <|
      (emits_u8 _).seq <| (emits_u8 0).seq (emits_u16 s.mtu)
  have hbody : (Format.raw [0x58, 0x52, 0x43, 0x45]).seq ((Format.raw [0x01, 0x00]).seq
      ((Format.raw [0x01, 0x0F]).seq ((Format.raw s.clientKey.toList).seq
        ((word 1 s.sessionId.toBitVec).seq ((word 1 (UInt8.toBitVec 0)).seq
          (word 2 s.mtu.toBitVec)))))) 12 = some s.clientBytes := by
    rw [word_one, word_one]
    simp [Format.seq, Format.raw, word, Format.aligned, Format.padding, clientBytes]
  have hbuild : buildCreateClient s buf cap = ⟨12 + s.clientBytes.length, s, store buf 0
      (prefixBytes (init 0 s.clientKey 0) submsgCreateClient 0
        (UInt16.ofNat s.clientBytes.length) ++ s.clientBytes)⟩ :=
    buildControl_fits (t := init 0 s.clientKey 0) rfl hpayload hbody _ _ (by omega)
  rw [hlen] at hbuild
  exact hbuild

/-- The body of HEARTBEAT. -/
def heartbeatBytes (targetStreamRaw : UInt8) (firstUnacked lastSent : UInt16) : Bytes :=
  littleEndian 2 firstUnacked.toBitVec ++ littleEndian 2 lastSent.toBitVec ++ [targetStreamRaw]

theorem buildHeartbeat_fits (s : Session) (stream target : UInt8) (firstUnacked lastSent : UInt16)
    (buf : Nat → UInt8) {cap : Nat} (hcap : 17 ≤ cap) :
    buildHeartbeat stream target firstUnacked lastSent s buf cap = ⟨17, s, store buf 0
      (prefixBytes { s with outSeqNum := 0 } submsgHeartbeat 0 5 ++
        heartbeatBytes target firstUnacked lastSent)⟩ := by
  have hpayload : Emits (do
      writeU16 firstUnacked
      writeU16 lastSent
      writeU8 target) _ :=
    (emits_u16 _).seq <| (emits_u16 _).seq (emits_u8 _)
  have hbody : (word 2 firstUnacked.toBitVec).seq ((word 2 lastSent.toBitVec).seq
      (word 1 target.toBitVec)) 12 = some (heartbeatBytes target firstUnacked lastSent) := by
    rw [word_one]
    simp [Format.seq, Format.raw, word, Format.aligned, Format.padding, heartbeatBytes]
  exact buildControl_fits (t := { s with outSeqNum := 0 }) rfl hpayload hbody _ _ hcap

end RtosXrce.Xrce.Session
