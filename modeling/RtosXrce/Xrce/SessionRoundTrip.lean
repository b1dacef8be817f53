import RtosXrce.Xrce.SessionMessages

/-!
# Reading the session messages back

The agent's side: a reader that takes a numbered message apart with the CDR functions and the
unpacking of `session.c`. It needs to be told which builder was called, since a created participant
and any other created object differ in nothing but what stands behind the XML.
-/

namespace RtosXrce.Xrce

/-- An object id that the packing keeps. -/
structure ObjectId.Wf (oid : ObjectId) : Prop where
  id_lt : oid.id < 4096
  kind_lt : oid.kind < 16

namespace Session

open Library Library.Fallible Cdr

/-! ## The frame -/

/-- The fields in front of the content. -/
structure Frame where
  sessionId : UInt8
  stream : UInt8
  seqNum : UInt16
  clientKey : Vector UInt8 4
  submessageId : UInt8
  flags : UInt8
  length : UInt16
  requestId : UInt16
  objectId : ObjectId

def readRequestId : Read UInt16 := do
  let raw ← readBytes 2
  let hi := raw.get ⟨0, Nat.zero_lt_two⟩
  let lo := raw.get ⟨1, Nat.one_lt_two⟩
  return hi.toUInt16 <<< 8 ||| lo.toUInt16

def readFrame : Read Frame := do
  let sessionId ← readU8
  let stream ← readU8
  let seqNum ← readU16
  let clientKey ← readBytes 4
  let submessageId ← readU8
  let flags ← readU8
  let length ← readU16
  let requestId ← readRequestId
  let objectId ← readObjectId
  return { sessionId, stream, seqNum, clientKey, submessageId, flags, length, requestId, objectId }

theorem unpack_requestId (requestId : UInt16) :
    (requestId >>> 8).toUInt8.toUInt16 <<< 8 ||| requestId.toUInt8.toUInt16 = requestId := by
  have hlt : requestId.toNat < 65536 := requestId.toNat_lt
  have hhigh : ((requestId >>> 8).toUInt8.toUInt16 <<< 8).toNat =
      2 ^ 8 * (requestId.toNat / 256) := by
    simp [Nat.shiftLeft_eq, Nat.shiftRight_eq_div_pow]
    omega
  have hlow : requestId.toUInt8.toUInt16.toNat = requestId.toNat % 256 := by simp
  apply UInt16.toNat_inj.mp
  rw [UInt16.toNat_or, hhigh, hlow, ← Nat.two_pow_add_eq_or_of_lt (Nat.mod_lt _ (by decide))]
  omega

theorem reads_requestId (requestId : UInt16) :
    Reads readRequestId (Format.raw (requestIdRaw requestId).toList) requestId := by
  have hread := (reads_fetch (requestIdRaw requestId)).map fun raw =>
    raw[0].toUInt16 <<< 8 ||| raw[1].toUInt16
  have hvalue : (requestIdRaw requestId)[0].toUInt16 <<< 8 |||
      (requestIdRaw requestId)[1].toUInt16 = requestId := unpack_requestId requestId
  rwa [hvalue] at hread

/-- The packed byte that holds the end of the id and the kind. -/
theorem toNat_objectIdRaw (id : UInt16) (kind : UInt8) :
    ((id <<< 4).toUInt8 ||| (kind &&& 0x0F)).toNat = 16 * (id.toNat % 16) + kind.toNat % 16 := by
  have hhigh : (id <<< 4).toUInt8.toNat = 2 ^ 4 * (id.toNat % 16) := by
    simp [Nat.shiftLeft_eq]
    omega
  have hlow : (kind &&& 0x0F).toNat = kind.toNat % 16 := Nat.and_two_pow_sub_one_eq_mod _ 4
  rw [UInt8.toNat_or, hhigh, hlow, ← Nat.two_pow_add_eq_or_of_lt (Nat.mod_lt _ (by decide))]

theorem unpack_id {id : UInt16} (hid : id < 4096) (kind : UInt8) :
    (id >>> 4).toUInt8.toUInt16 <<< 4 |||
      (((id <<< 4).toUInt8 ||| (kind &&& 0x0F)) >>> 4).toUInt16 = id := by
  have hid : id.toNat < 4096 := hid
  have hhigh : ((id >>> 4).toUInt8.toUInt16 <<< 4).toNat = 2 ^ 4 * (id.toNat / 16) := by
    simp [Nat.shiftLeft_eq, Nat.shiftRight_eq_div_pow]
    omega
  have hlow : (((id <<< 4).toUInt8 ||| kind &&& 0x0F) >>> 4).toUInt16.toNat = id.toNat % 16 := by
    rw [UInt8.toNat_toUInt16, UInt8.toNat_shiftRight, toNat_objectIdRaw]
    simp [Nat.shiftRight_eq_div_pow]
    omega
  apply UInt16.toNat_inj.mp
  rw [UInt16.toNat_or, hhigh, hlow, ← Nat.two_pow_add_eq_or_of_lt (Nat.mod_lt _ (by decide))]
  omega

theorem unpack_kind (id : UInt16) {kind : UInt8} (hkind : kind < 16) :
    ((id <<< 4).toUInt8 ||| (kind &&& 0x0F)) &&& 0x0F = kind := by
  have hkind : kind.toNat < 16 := hkind
  have hmask (b : UInt8) : (b &&& 0x0F).toNat = b.toNat % 16 :=
    Nat.and_two_pow_sub_one_eq_mod _ 4
  apply UInt8.toNat_inj.mp
  rw [hmask, toNat_objectIdRaw]
  omega

theorem reads_objectId {oid : ObjectId} (wf : oid.Wf) :
    Reads readObjectId (Format.raw (objectIdRaw oid).toList) oid := by
  have hvalue : (⟨(objectIdRaw oid)[0].toUInt16 <<< 4 ||| ((objectIdRaw oid)[1] >>> 4).toUInt16,
      (objectIdRaw oid)[1] &&& 0x0F⟩ : ObjectId) = oid :=
    congrArg₂ ObjectId.mk (unpack_id wf.id_lt oid.kind) (unpack_kind oid.id wf.kind_lt)
  have hread := (reads_fetch (objectIdRaw oid)).map fun raw => (⟨raw[0].toUInt16 <<< 4 |||
    (raw[1] >>> 4).toUInt16, raw[1] &&& 0x0F⟩ : ObjectId)
  rwa [hvalue] at hread

def frameFormat (f : Frame) : Format :=
  (headerFormat f.sessionId f.stream f.seqNum f.clientKey).seq <|
    (submessageFormat f.submessageId f.flags f.length).seq <|
      Format.raw (requestBytes f.requestId f.objectId)

theorem frameFormat_zero (f : Frame) : frameFormat f 0 =
    some (headerBytes f.sessionId f.stream f.seqNum f.clientKey ++
      (submessageBytes f.submessageId f.flags f.length ++
        requestBytes f.requestId f.objectId)) := by
  refine Format.seq_eq_some.mpr ⟨_, _, headerFormat_zero _ _ _ _, ?_, rfl⟩
  rw [length_headerBytes]
  exact Format.seq_eq_some.mpr ⟨_, _, submessageFormat_eight _ _ _, rfl, rfl⟩

theorem reads_frame {f : Frame} (wf : f.objectId.Wf) : Reads readFrame (frameFormat f) f := by
  simp only [frameFormat, headerFormat, submessageFormat, requestBytes, Format.raw_append,
    Format.seq_assoc]
  refine (reads_u8 f.sessionId).bind ?_
  refine (reads_u8 f.stream).bind ?_
  refine (reads_u16 f.seqNum).bind ?_
  refine (reads_fetch f.clientKey).bind ?_
  refine (reads_u8 f.submessageId).bind ?_
  refine (reads_u8 f.flags).bind ?_
  refine (reads_u16 f.length).bind ?_
  refine (reads_requestId f.requestId).bind ?_
  exact (reads_objectId wf).map _

/-! ## The content -/

/-- What stands behind the frame. -/
inductive Content where
  | participant (kind representation : UInt8) (xml : CString) (domainId : Int16)
  | object (kind representation : UInt8) (xml : CString) (parentId : ObjectId)
  | sample (data : Bytes)
  | delivery (preferredStream format : UInt8) (contentFilter deliveryControl : Bool)
      (maxSamples maxElapsedTime maxBytesPerSeconds minPacePeriod : UInt16)
  | nothing

inductive Builder where
  | createParticipant
  | createXml
  | writeData
  | readData
  | delete

/-- The XML goes into a buffer that no message within the length field can exceed. -/
def readContent (length : UInt16) : Builder → Read Content
  | .createParticipant => do
    let kind ← readU8
    let representation ← readU8
    let xml ← readString 65536
    let domainId ← readI16
    return .participant kind representation xml.toCString domainId
  | .createXml => do
    let kind ← readU8
    let representation ← readU8
    let xml ← readString 65536
    let parentId ← readObjectId
    return .object kind representation xml.toCString parentId
  | .writeData => do
    let data ← readBytes (length.toNat - 4)
    return .sample data.toList
  | .readData => do
    let preferredStream ← readU8
    let format ← readU8
    let contentFilter ← readBool
    let deliveryControl ← readBool
    let maxSamples ← readU16
    let maxElapsedTime ← readU16
    let maxBytesPerSeconds ← readU16
    let minPacePeriod ← readU16
    return .delivery preferredStream format contentFilter deliveryControl maxSamples maxElapsedTime
      maxBytesPerSeconds minPacePeriod
  | .delete => return .nothing

def readMessage (b : Builder) : Read (Frame × Content) := do
  let frame ← readFrame
  let content ← readContent frame.length b
  return (frame, content)

namespace Request

def builder : Request → Builder
  | .createParticipant .. => .createParticipant
  | .createXml .. => .createXml
  | .writeData .. => .writeData
  | .readData .. => .readData
  | .delete .. => .delete

/-- The frame of the message that the session `s` sends. -/
def frame (r : Request) (s : Session) (stream : UInt8) : Frame where
  sessionId := s.sessionId
  stream := stream
  seqNum := s.outSeqNum
  clientKey := s.clientKey
  submessageId := r.submessageId
  flags := flagEndiannessLe
  length := UInt16.ofNat (r.size - 12)
  requestId := s.nextRequestId
  objectId := r.objectId

/-- Delivery without a filter and without limits on a subscription. -/
def content : Request → Content
  | .createParticipant oid domainId xml =>
    .participant oid.kind representationAsXmlString xml domainId
  | .createXml oid parentId xml => .object oid.kind representationAsXmlString xml parentId
  | .writeData _ sample => .sample sample
  | .readData _ preferredStream => .delivery preferredStream formatData false true 0xFFFF 0 0 0
  | .delete _ => .nothing

/-- Object ids within their bits, and a payload within the length field. -/
structure Wf (r : Request) : Prop where
  objectIds : ∀ oid ∈ r.objectIds, oid.Wf
  payload : r.size - 12 ≤ 65535

theorem reads_content {r : Request} (wf : r.Wf) {length : UInt16}
    (hlength : length.toNat = r.size - 12) :
    Reads (readContent length r.builder) r.format r.content := by
  have hpayload := wf.payload
  cases r with
  | createParticipant oid domainId xml =>
    simp only [size] at hpayload
    have hxml := reads_string (n := 65536) ⟨xml, by omega⟩
    refine (reads_u8 oid.kind).bind ?_
    refine (reads_u8 representationAsXmlString).bind ?_
    exact hxml.bind ((reads_i16 domainId).map _)
  | createXml oid parentId xml =>
    simp only [size] at hpayload
    have hxml := reads_string (n := 65536) ⟨xml, by omega⟩
    have hparent : parentId.Wf := wf.objectIds parentId (by simp [objectIds])
    refine (reads_u8 oid.kind).bind ?_
    refine (reads_u8 representationAsXmlString).bind ?_
    exact hxml.bind ((reads_objectId hparent).map _)
  | writeData oid sample =>
    have hlen : sample.length = length.toNat - 4 := by
      simp only [size] at hlength
      omega
    have hsample := (reads_fetch (n := length.toNat - 4) ⟨sample.toArray, hlen⟩).map
      fun data => Content.sample data.toList
    exact hsample
  | readData oid preferredStream =>
    refine (reads_u8 preferredStream).bind ?_
    refine (reads_u8 formatData).bind ?_
    refine (reads_bool false).bind ?_
    refine (reads_bool true).bind ?_
    refine (reads_u16 0xFFFF).bind ?_
    refine (reads_u16 0).bind ?_
    exact (reads_u16 0).bind ((reads_u16 0).map _)
  | delete oid => exact Reads.pure _

theorem reads_message {r : Request} (wf : r.Wf) (s : Session) (stream : UInt8) :
    Reads (readMessage r.builder) ((frameFormat (r.frame s stream)).seq r.format)
      (r.frame s stream, r.content) := by
  have hobject : r.objectId.Wf := by
    apply wf.objectIds r.objectId
    cases r <;> simp [objectIds, objectId]
  have hlength : (r.frame s stream).length.toNat = r.size - 12 :=
    UInt16.toNat_ofNat_of_lt (Nat.lt_succ_of_le wf.payload)
  exact (reads_frame (f := r.frame s stream) hobject).bind ((reads_content wf hlength).map _)

theorem message_eq {r : Request} {body : Bytes} (hsize : 16 + body.length = r.size)
    (hbody : r.format 16 = some body) (s : Session) (stream : UInt8) :
    ((frameFormat (r.frame s stream)).seq r.format) 0 =
      some (message s r.submessageId stream r.objectId body) := by
  have hlen : 4 + body.length = r.size - 12 := by omega
  refine Format.seq_eq_some.mpr ⟨_, body, frameFormat_zero _, ?_, ?_⟩
  · simpa [length_headerBytes, length_submessageBytes, length_requestBytes] using hbody
  · simp [message, prefixBytes, frame, hlen]

/-- A numbered message is built exactly when there is room for all of it, and then holds what was
asked for and nothing else. -/
theorem build_carries (s : Session) (stream : UInt8) {r : Request} (wf : r.Wf)
    (buf : Nat → UInt8) (cap : Nat) :
    ((r.build stream s buf cap).size ≠ 0 ↔ r.size ≤ cap) ∧
      ((r.build stream s buf cap).size ≠ 0 →
        (r.frame s stream).length.toNat = (r.build stream s buf cap).size - 12 ∧
        ∃ reader, (readMessage r.builder).exec
            (readerInit (r.build stream s buf cap).buf (r.build stream s buf cap).size) =
              (some (r.frame s stream, r.content), reader) ∧
          reader.pos = (r.build stream s buf cap).size) := by
  obtain ⟨body, hbody, hsize⟩ := spans_format (textFits_of_size wf.payload)
  by_cases hcap : r.size ≤ cap
  · have hbuild := r.build_fits stream s buf hbody (hsize ▸ hcap)
    rw [hsize] at hbuild
    have hpos : r.size ≠ 0 := by omega
    rw [hbuild]
    refine ⟨iff_of_true hpos hcap, fun _ => ⟨?_, ?_⟩⟩
    · exact UInt16.toNat_ofNat_of_lt (Nat.lt_succ_of_le wf.payload)
    · have hlen : (message s r.submessageId stream r.objectId body).length = r.size :=
        (length_message s r.submessageId stream r.objectId body).trans hsize
      have hrest : (readerInit (store buf 0 (message s r.submessageId stream r.objectId body))
          r.size).rest = message s r.submessageId stream r.objectId body ++ [] := by
        rw [rest_readerInit, List.append_nil, ← hlen, bytesOf_store]
      obtain ⟨reader, hexec, hend⟩ := (reads_message wf s stream).parses.takes _ _
        (message_eq hsize hbody s stream) hrest
      exact ⟨reader, hexec, hend.trans hlen⟩
  · have hzero : (r.build stream s buf cap).size = 0 := by
      refine r.build_fails stream s buf fun e he => ?_
      obtain rfl := Option.some.inj (hbody.symm.trans he)
      omega
    exact ⟨iff_of_false (not_not.mpr hzero) hcap, fun hne => absurd hzero hne⟩

theorem build_carries_participant :
    let r : Request := .createParticipant ⟨0xFFF, 1⟩ (-7) ⟨[60, 47, 62], by decide⟩
    r.Wf ∧ (r.build 0x80 (init 0x01 #v[1, 2, 3, 4] 512) (fun _ => 0xEE) 30).size = 30 ∧
      ∃ reader, (readMessage .createParticipant).exec
        (readerInit (r.build 0x80 (init 0x01 #v[1, 2, 3, 4] 512) (fun _ => 0xEE) 30).buf 30) =
          (some (⟨0x01, 0x80, 0, #v[1, 2, 3, 4], 1, 1, 18, 9, ⟨0xFFF, 1⟩⟩,
            .participant 1 2 ⟨[60, 47, 62], by decide⟩ (-7)), reader) ∧ reader.pos = 30 := by
  intro r
  have wf : r.Wf := ⟨by simp [r, objectIds, objectId]; constructor <;> decide, by decide⟩
  have hsize : (r.build 0x80 (init 0x01 #v[1, 2, 3, 4] 512) (fun _ => 0xEE) 30).size = 30 := by
    decide
  have hcarries := (build_carries (init 0x01 #v[1, 2, 3, 4] 512) 0x80 wf (fun _ => 0xEE) 30).2
    (by rw [hsize]; decide)
  rw [hsize] at hcarries
  exact ⟨wf, hsize, hcarries.2⟩

end Request

end Session

end RtosXrce.Xrce
