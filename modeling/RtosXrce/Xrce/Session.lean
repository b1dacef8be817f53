import RtosXrce.Xrce.Cdr

/-!
# Session messages

`xrce/src/session.c`. A builder works on the session and on a writer of its own; when a write fails
it returns 0, and whatever it had counted up or written by then stays.
-/

namespace RtosXrce.Xrce

open Library Cdr

/-- `xrce_object_id_t`. -/
structure ObjectId where
  id : UInt16
  kind : UInt8
  deriving DecidableEq

/-- `xrce_session_t`. -/
@[ext] structure Session where
  sessionId : UInt8
  clientKey : Vector UInt8 4
  mtu : UInt16
  nextRequestId : UInt16
  outSeqNum : UInt16
  deriving DecidableEq

namespace Session

/-- The `XRCE_SUBMSG_` constants. -/
abbrev submsgCreateClient : UInt8 := 0
abbrev submsgCreate : UInt8 := 1
abbrev submsgDelete : UInt8 := 3
abbrev submsgStatusAgent : UInt8 := 4
abbrev submsgStatus : UInt8 := 5
abbrev submsgWriteData : UInt8 := 7
abbrev submsgReadData : UInt8 := 8
abbrev submsgData : UInt8 := 9
abbrev submsgAcknack : UInt8 := 10
abbrev submsgHeartbeat : UInt8 := 11

/-- `XRCE_FORMAT_DATA`. -/
abbrev formatData : UInt8 := 0x00

/-- `XRCE_FLAG_ENDIANNESS_LE`. -/
abbrev flagEndiannessLe : UInt8 := 0x01

/-- `XRCE_REPRESENTATION_AS_XML_STRING`. -/
abbrev representationAsXmlString : UInt8 := 0x02

/-- `XRCE_STATUS_OK`. -/
abbrev statusOk : UInt8 := 0x00

/-- `XRCE_STATUS_OK_MATCHED`. -/
abbrev statusOkMatched : UInt8 := 0x01

/-- `xrce_session_init`. -/
def init (sessionId : UInt8) (clientKey : Vector UInt8 4) (mtu : UInt16) : Session where
  sessionId := sessionId
  clientKey := clientKey
  mtu := mtu
  nextRequestId := 9
  outSeqNum := 0

/-! ## Parts of a message -/

/-- `write_u16`. -/
def writeU16 (v : UInt16) : Write Unit := writeI16 v.toInt16

/-- `read_u16`. -/
def readU16 : Read UInt16 := do
  let v ← readI16
  return v.toUInt16

/-- The 12-bit id and the 4-bit kind, packed. -/
def objectIdRaw (oid : ObjectId) : Vector UInt8 2 :=
  #v[(oid.id >>> 4).toUInt8, (oid.id <<< 4).toUInt8 ||| (oid.kind &&& 0x0F)]

/-- `write_object_id`. -/
def writeObjectId (oid : ObjectId) : Write Unit := writeBytes (objectIdRaw oid).toList

/-- `read_object_id`. -/
def readObjectId : Read ObjectId := do
  let raw ← readBytes 2
  let hi := raw.get ⟨0, Nat.zero_lt_two⟩
  let lo := raw.get ⟨1, Nat.one_lt_two⟩
  return { id := hi.toUInt16 <<< 4 ||| (lo >>> 4).toUInt16, kind := lo &&& 0x0F }

/-- A request id, big-endian. -/
def requestIdRaw (requestId : UInt16) : Vector UInt8 2 :=
  #v[(requestId >>> 8).toUInt8, requestId.toUInt8]

/-- `write_base_object_request`. -/
def writeBaseObjectRequest (requestId : UInt16) (objectId : ObjectId) : Write Unit := do
  writeBytes (requestIdRaw requestId).toList
  writeObjectId objectId

/-- `write_message_header`. -/
def writeMessageHeader (sessionId streamId : UInt8) (seqNum : UInt16) (key : Vector UInt8 4) :
    Write Unit := do
  writeU8 sessionId
  writeU8 streamId
  writeU16 seqNum
  writeBytes key.toList

/-- A submessage header with a placeholder for the length. -/
def writeSubmessageHeader (id flags : UInt8) : Write Unit := do
  writeU8 id
  writeU8 flags
  writeU16 0

/-- `submessage_header_at`: the position of the header. -/
def submessageHeaderAt (id flags : UInt8) : Write Nat := do
  let w ← get
  writeSubmessageHeader id flags
  return w.pos

/-- `backpatch_length`. -/
def backpatchLength (buf : Nat → UInt8) (headerPos payloadLen : Nat) : Nat → UInt8 :=
  store buf (headerPos + 2)
    [UInt8.ofNat (payloadLen &&& 0xFF), UInt8.ofNat ((payloadLen >>> 8) &&& 0xFF)]

/-! ## Builders -/

/-- What a builder returns, and the session and the buffer it leaves. -/
structure Built where
  size : Nat
  session : Session
  buf : Nat → UInt8

/-- A builder, given what it is to build. -/
abbrev Build := Session → (Nat → UInt8) → Nat → Built

/-- The frame of the builders that only read the session. -/
def buildControl (header payload : Session → Write Unit) (submessageId : UInt8) : Build :=
  fun s buf cap =>
    match (header s).exec (writerInit buf cap) with
    | (none, w) => ⟨0, s, w.buf⟩
    | (some _, w) =>
      match (submessageHeaderAt submessageId flagEndiannessLe).exec w with
      | (none, w) => ⟨0, s, w.buf⟩
      | (some headerPos, w) =>
        let payloadStart := w.pos
        match (payload s).exec w with
        | (none, w) => ⟨0, s, w.buf⟩
        | (some _, w) => ⟨w.pos, s, backpatchLength w.buf headerPos (w.pos - payloadStart)⟩

/-- `xrce_session_build_create_client`. -/
def buildCreateClient : Build :=
  buildControl (fun s => writeMessageHeader 0x00 0x00 0x00 s.clientKey)
    (fun s => do
      writeBytes [0x58, 0x52, 0x43, 0x45] -- the cookie `XRCE`
      writeBytes [0x01, 0x00] -- version
      writeBytes [0x01, 0x0F] -- vendor_id
      writeBytes s.clientKey.toList
      writeU8 s.sessionId
      writeBool false -- optional_properties
      writeU16 s.mtu)
    submsgCreateClient

/-- `xrce_session_build_heartbeat`; the stream the message goes out on is always 0. -/
def buildHeartbeat (_streamIdRaw targetStreamRaw : UInt8) (firstUnacked lastSent : UInt16) :
    Build :=
  buildControl (fun s => writeMessageHeader s.sessionId 0 0 s.clientKey)
    (fun _ => do
      writeU16 firstUnacked
      writeU16 lastSent
      writeU8 targetStreamRaw)
    submsgHeartbeat

/-- The frame of the builders that take a sequence number and a request id. -/
def buildRequest (submessageId streamIdRaw : UInt8) (objectId : ObjectId) (rest : Write Unit) :
    Build := fun s buf cap =>
  match (writeMessageHeader s.sessionId streamIdRaw s.outSeqNum s.clientKey).exec
    (writerInit buf cap) with
  | (none, w) => ⟨0, s, w.buf⟩
  | (some _, w) =>
    let s := { s with outSeqNum := s.outSeqNum + 1 }
    match (submessageHeaderAt submessageId flagEndiannessLe).exec w with
    | (none, w) => ⟨0, s, w.buf⟩
    | (some headerPos, w) =>
      let payloadStart := w.pos
      let requestId := s.nextRequestId
      let s := { s with nextRequestId := s.nextRequestId + 1 }
      match Fallible.exec (do writeBaseObjectRequest requestId objectId; rest) w with
      | (none, w) => ⟨0, s, w.buf⟩
      | (some _, w) => ⟨w.pos, s, backpatchLength w.buf headerPos (w.pos - payloadStart)⟩

/-- `build_create`. -/
def buildCreate (streamIdRaw : UInt8) (objectId : ObjectId) (xml : CString) (isParticipant : Bool)
    (domainId : Int16) (parentId : ObjectId) : Build :=
  buildRequest submsgCreate streamIdRaw objectId do
    writeU8 objectId.kind
    writeU8 representationAsXmlString
    writeString xml
    if isParticipant then writeI16 domainId else writeObjectId parentId

/-- `xrce_session_build_create_participant`. -/
def buildCreateParticipant (streamIdRaw : UInt8) (objectId : ObjectId) (domainId : Int16)
    (xml : CString) : Build :=
  buildCreate streamIdRaw objectId xml true domainId ⟨0, 0⟩

/-- `xrce_session_build_create_xml`. -/
def buildCreateXml (streamIdRaw : UInt8) (objectId parentId : ObjectId) (xml : CString) : Build :=
  buildCreate streamIdRaw objectId xml false 0 parentId

/-- `xrce_session_build_write_data`. -/
def buildWriteData (streamIdRaw : UInt8) (datawriterId : ObjectId) (sample : Bytes) : Build :=
  buildRequest submsgWriteData streamIdRaw datawriterId (writeBytes sample)

/-- `xrce_session_build_read_data`. -/
def buildReadData (streamIdRaw : UInt8) (datareaderId : ObjectId) (preferredStreamIdRaw : UInt8) :
    Build :=
  buildRequest submsgReadData streamIdRaw datareaderId do
    writeU8 preferredStreamIdRaw
    writeU8 formatData
    writeBool false -- optional_content_filter_expression
    writeBool true -- optional_delivery_control
    writeU16 0xFFFF -- max_samples
    writeU16 0 -- max_elapsed_time
    writeU16 0 -- max_bytes_per_seconds
    writeU16 0 -- min_pace_period

/-- `xrce_session_build_delete`. -/
def buildDelete (streamIdRaw : UInt8) (objectId : ObjectId) : Build :=
  buildRequest submsgDelete streamIdRaw objectId (pure ())

/-! ## Parsers -/

/-- The length of a message header, with a client key or without. -/
def headerLen (sessionId : UInt8) : Nat := if sessionId < 0x80 then 8 else 4

/-- `skip_message_header`. -/
def skipMessageHeader : Read Unit := do
  let r ← get
  if r.len < 2 then failure
  if r.len < headerLen (r.buf 0) then failure
  set { r with pos := headerLen (r.buf 0) }

/-- A message with one submessage of the given kind; its flags and its length are not looked at. -/
def parse {α : Type} (submessageId : UInt8) (body : Read α) (buf : Nat → UInt8) (len : Nat) :
    Option α :=
  Fallible.exec (do
    skipMessageHeader
    let id ← readU8
    let _flags ← readU8
    let _subLen ← readU16
    if id ≠ submessageId then failure
    body) (readerInit buf len) |>.1

/-- The status byte, and whether it reports success. -/
def readStatus : Read Bool := do
  let status ← readU8
  return status = statusOk ∨ status = statusOkMatched

/-- `xrce_session_parse_create_client_reply`. -/
def parseCreateClientReply (buf : Nat → UInt8) (len : Nat) : Bool :=
  (parse submsgStatusAgent readStatus buf len).getD false

/-- `parse_status_reply`. -/
def parseStatusReply (buf : Nat → UInt8) (len : Nat) : Bool :=
  (parse submsgStatus (do
    let _relatedRequest ← readBytes 4
    readStatus) buf len).getD false

/-- `xrce_session_parse_create_reply`. -/
def parseCreateReply : (Nat → UInt8) → Nat → Bool := parseStatusReply

/-- `xrce_session_parse_delete_reply`. -/
def parseDeleteReply : (Nat → UInt8) → Nat → Bool := parseStatusReply

/-- What `xrce_session_parse_data` returns; the sample is a part of the message. -/
structure Data where
  objectId : ObjectId
  sampleStart : Nat
  sampleLen : Nat

/-- `xrce_session_parse_data`. -/
def parseData : (Nat → UInt8) → Nat → Option Data := parse submsgData do
  let _requestIdRaw ← readBytes 2
  let objectId ← readObjectId
  let r ← get
  return { objectId, sampleStart := r.pos, sampleLen := r.len - r.pos }

/-- What `xrce_session_parse_acknack` returns. -/
structure Acknack where
  firstUnacked : UInt16
  bitmap : UInt16

/-- `xrce_session_parse_acknack`. -/
def parseAcknack : (Nat → UInt8) → Nat → Option Acknack := parse submsgAcknack do
  let firstUnacked ← readU16
  let bitmapBytes ← readBytes 2
  let _targetStream ← readU8
  return { firstUnacked, bitmap := gatherU16 bitmapBytes }

end Session

end RtosXrce.Xrce
