import RtosXrce.Library.Bytes
import Mathlib.Logic.Function.Iterate

/-!
# Serial framing

`xrce/src/serial_transport.c`: CRC-16/ARC, the frame encoder with its capacity checks, and the
byte-at-a-time reader. An output buffer is the list of the bytes written to it so far, so its
length is the C code's write position; a failed encoder call leaves the bytes written before the
check that failed.
-/

namespace RtosXrce.Xrce

open Library

namespace Serial

/-- `XRCE_SERIAL_FLAG`. -/
def flag : UInt8 := 0x7E

/-- `XRCE_SERIAL_ESC`. -/
def esc : UInt8 := 0x7D

/-- `XRCE_SERIAL_XOR`. -/
def xor : UInt8 := 0x20

/-- `XRCE_SERIAL_HEADER_LEN`. -/
abbrev headerLen : Nat := 4

/-- `XRCE_SERIAL_CRC_LEN`. -/
abbrev crcLen : Nat := 2

/-- `XRCE_SERIAL_MAX_ENCODED_LEN`. -/
def maxEncodedLen (payloadLen : Nat) : Nat := 1 + 2 * (headerLen + payloadLen + crcLen)

/-- One turn of the bit loop of `crc16_update`. -/
def crc16Shift (crc : UInt16) : UInt16 :=
  if crc &&& 1 ≠ 0 then (crc >>> 1) ^^^ 0xA001 else crc >>> 1

/-- `crc16_update`. -/
def crc16Update (crc : UInt16) (byte : UInt8) : UInt16 :=
  crc16Shift^[8] (crc ^^^ byte.toUInt16)

/-- `xrce_serial_crc16`. -/
def crc16 (data : Bytes) : UInt16 := data.foldl crc16Update 0

/-- `put_stuffed`; an error is the C return value `false`, with the buffer as it is then. -/
def putStuffed (outCap : Nat) (byte : UInt8) (out : Bytes) : Except Bytes Bytes :=
  if byte = flag ∨ byte = esc then
    if out.length + 2 > outCap then .error out else .ok (out ++ [esc, byte ^^^ xor])
  else if out.length + 1 > outCap then .error out
  else .ok (out ++ [byte])

/-- The payload loop of `xrce_serial_frame_encode`: the CRC and the buffer after it. -/
def putPayload (outCap : Nat) : Bytes → UInt16 → Bytes → Except Bytes (UInt16 × Bytes)
  | [], crc, out => .ok (crc, out)
  | byte :: payload, crc, out => do
    let out ← putStuffed outCap byte out
    putPayload outCap payload (crc16Update crc byte) out

/-- The body of `xrce_serial_frame_encode` up to its `return`. -/
def putFrame (outCap : Nat) (localAddr remoteAddr : UInt8) (payload : Bytes) :
    Except Bytes Bytes := do
  if outCap < 1 then
    throw []
  let out := [flag]
  let out ← putStuffed outCap localAddr out
  let out ← putStuffed outCap remoteAddr out
  let out ← putStuffed outCap (UInt8.ofNat payload.length) out
  let out ← putStuffed outCap (UInt8.ofNat (payload.length >>> 8)) out
  let (crc, out) ← putPayload outCap payload 0 out
  let out ← putStuffed outCap crc.toUInt8 out
  putStuffed outCap (crc >>> 8).toUInt8 out

/-- `xrce_serial_frame_encode`: the returned length, and the bytes written. -/
def frameEncode (outCap : Nat) (localAddr remoteAddr : UInt8) (payload : Bytes) : Nat × Bytes :=
  match putFrame outCap localAddr remoteAddr payload with
  | .ok out => (out.length, out)
  | .error out => (0, out)

/-- `xrce_serial_state_t`. -/
inductive State where
  | waitFlag | readSrc | readDst | readLenLsb | readLenMsb | readPayload | readCrcLsb | readCrcMsb
  deriving DecidableEq, Repr

/-- `xrce_serial_feed_result_t`, with the two output parameters where they are written. -/
inductive FeedResult where
  | inProgress
  | frameReady (srcAddr : UInt8) (len : UInt16)
  | error
  deriving DecidableEq, Repr

/-- `xrce_serial_reader_t`; `payloadBuf` is the caller's storage. -/
structure Reader where
  state : State
  localAddr : UInt8
  srcAddr : UInt8
  len : UInt16
  pos : UInt16
  crc : UInt16
  rxCrc : UInt16
  haveEscape : Bool
  payloadBuf : Bytes
  payloadCap : Nat
  deriving DecidableEq

namespace Reader

/-- `xrce_serial_reader_init`. -/
def init (localAddr : UInt8) (payloadBuf : Bytes) (payloadCap : Nat) : Reader where
  state := .waitFlag
  localAddr := localAddr
  srcAddr := 0
  len := 0
  pos := 0
  crc := 0
  rxCrc := 0
  haveEscape := false
  payloadBuf := payloadBuf
  payloadCap := payloadCap

/-- `reset_to_wait`. -/
def resetToWait (r : Reader) : Reader := { r with state := .waitFlag, haveEscape := false }

/-- `unstuff`; `none` is the C return value `false`. -/
def unstuff (r : Reader) (raw : UInt8) : Reader × Option UInt8 :=
  if r.haveEscape then ({ r with haveEscape := false }, some (raw ^^^ xor))
  else if raw = esc then ({ r with haveEscape := true }, none)
  else (r, some raw)

/-- The `switch` of `xrce_serial_reader_feed`, over one decoded octet. -/
def take (r : Reader) (decoded : UInt8) : Reader × FeedResult :=
  match r.state with
  | .waitFlag => (r, .inProgress)
  | .readSrc => ({ r with srcAddr := decoded, state := .readDst }, .inProgress)
  | .readDst =>
    if decoded ≠ r.localAddr then (r.resetToWait, .error)
    else ({ r with state := .readLenLsb }, .inProgress)
  | .readLenLsb => ({ r with len := decoded.toUInt16, state := .readLenMsb }, .inProgress)
  | .readLenMsb =>
    let r := { r with len := r.len ||| decoded.toUInt16 <<< 8, pos := 0, crc := 0 }
    if r.len.toNat > r.payloadCap then (r.resetToWait, .error)
    else ({ r with state := if r.len = 0 then .readCrcLsb else .readPayload }, .inProgress)
  | .readPayload =>
    let r := { r with
      payloadBuf := r.payloadBuf.set r.pos.toNat decoded
      pos := r.pos + 1
      crc := crc16Update r.crc decoded }
    (if r.pos = r.len then { r with state := .readCrcLsb } else r, .inProgress)
  | .readCrcLsb => ({ r with rxCrc := decoded.toUInt16, state := .readCrcMsb }, .inProgress)
  | .readCrcMsb =>
    let r := { r with rxCrc := r.rxCrc ||| decoded.toUInt16 <<< 8 }
    if r.rxCrc ≠ r.crc then (r.resetToWait, .error)
    else (r.resetToWait, .frameReady r.srcAddr r.len)

/-- `xrce_serial_reader_feed`. -/
def feed (r : Reader) (byte : UInt8) : Reader × FeedResult :=
  if !r.haveEscape ∧ byte = flag then
    ({ r with state := .readSrc, haveEscape := false }, .inProgress)
  else if r.state = .waitFlag then (r, .inProgress)
  else
    match r.unstuff byte with
    | (r, none) => (r, .inProgress)
    | (r, some decoded) => r.take decoded

/-- What the caller sees of one call: on a ready frame, also the payload it may read. -/
inductive Event where
  | inProgress
  | frameReady (srcAddr : UInt8) (len : UInt16) (payload : Bytes)
  | error
  deriving DecidableEq

def event (r : Reader) : FeedResult → Event
  | .inProgress => .inProgress
  | .frameReady src len => .frameReady src len (r.payloadBuf.take len.toNat)
  | .error => .error

/-- Feed a byte string; one event per byte. -/
def feedAll (r : Reader) : Bytes → Reader × List Event
  | [] => (r, [])
  | byte :: bytes =>
    let now := r.feed byte
    let rest := feedAll now.1 bytes
    (rest.1, now.1.event now.2 :: rest.2)

end Reader

end Serial

end RtosXrce.Xrce
