import RtosXrce.Xrce.MsgsRoundTrip
import RtosXrce.Xrce.SessionReplies
import RtosXrce.Xrce.SessionRoundTrip

/-!
# Samples on the wire

Every publisher of the repository encodes a message with `msgs.c`, takes the four bytes of the
encapsulation header off again and puts the rest into a WRITE_DATA. Here is what comes off
(`encode_headerless`), and what the agent finds in such a message (`sampleFor_writeData`) and in
every other one.
-/

namespace RtosXrce.Xrce

open Library Cdr

/-! ## Without the encapsulation header -/

/-- What an encoder has put into its buffer, less the header. -/
def Msgs.headerless (encoded : Option Nat × (Nat → UInt8)) : Bytes :=
  (bytesOf encoded.2 (encoded.1.getD 0)).drop 4

/-- An encoder whose fields have the encoding `body` behind a header. -/
theorem Msgs.encode_headerless {write : Write Unit} {f : Format} (h : Emits write f) {body : Bytes}
    (hbody : f 0 = some body) (buf : Nat → UInt8) {cap : Nat} (room : 4 + body.length ≤ cap) :
    (Msgs.encode write buf cap).1 = some (4 + body.length) ∧
      bytesOf (Msgs.encode write buf cap).2 (4 + body.length) = encapsulation ++ body := by
  have href : (f 0).map (encapsulation ++ ·) = some (encapsulation ++ body) := by
    rw [hbody]
    rfl
  have hlen : (encapsulation ++ body).length = 4 + body.length := List.length_append
  obtain ⟨w, hexec, hwritten, -⟩ := h.writes_header.fits buf cap href (hlen ▸ room)
  have hpos : w.pos = 4 + body.length := by rw [← w.length_written, hwritten, hlen]
  rw [← hpos]
  simp only [Msgs.encode, hexec, Option.map_some, true_and]
  exact hwritten

theorem Msgs.headerless_encode {write : Write Unit} {f : Format} (h : Emits write f) {body : Bytes}
    (hbody : f 0 = some body) (buf : Nat → UInt8) {cap : Nat} (room : 4 + body.length ≤ cap) :
    headerless (Msgs.encode write buf cap) = body := by
  obtain ⟨hlen, hbytes⟩ := Msgs.encode_headerless h hbody buf room
  rw [headerless, hlen, Option.getD_some, hbytes]
  rfl

/-- The sample of a `std_msgs/Int32`. -/
theorem Msgs.encode_int32 (i : Int32) :
    (({ data := i } : StdMsgsInt32).encode (fun _ => 0) 16).1 = some 8 ∧
      headerless (({ data := i } : StdMsgsInt32).encode (fun _ => 0) 16) =
        littleEndian 4 i.toBitVec := by
  have hlen : (littleEndian 4 i.toBitVec).length = 4 := length_littleEndian 4 _
  have room : 4 + (littleEndian 4 i.toBitVec).length ≤ 16 := by omega
  have hbody : Cdr.word 4 i.toBitVec 0 = some (littleEndian 4 i.toBitVec) := by
    simp [Cdr.word, Format.aligned, Format.padding]
  refine ⟨?_, headerless_encode (emits_i32 i) hbody _ room⟩
  rw [StdMsgsInt32.encode, (encode_headerless (emits_i32 i) hbody _ room).1, hlen]

namespace Session

/-! ## The agent's side -/

/-- The bytes a builder has made; the buffer was not initialised before. -/
def built (b : Built) : Bytes := bytesOf b.buf b.size

theorem length_built (b : Built) : (built b).length = b.size := length_bytesOf _ _

/-- The sample that a message carries for a data writer, read the way `parseData` reads. -/
def sampleFor (writer : ObjectId) (m : Bytes) : Option Bytes :=
  match parse submsgWriteData readSample (fun i => m.getD i 0) m.length with
  | none => none
  | some data =>
    if data.objectId = writer then some ((m.drop data.sampleStart).take data.sampleLen) else none

section Message

variable {s : Session} (id stream : UInt8)

theorem headerLen_prefixed (hs : s.sessionId < 0x80) (length : UInt16) (rest : Bytes) :
    Session.headerLen ((prefixBytes s id stream length ++ rest).getD 0 0) = 8 := if_pos hs

theorem submessageId_prefixed (length : UInt16) (rest : Bytes) :
    (prefixBytes s id stream length ++ rest).getD 8 0 = id := by
  have hlen := length_headerBytes s.sessionId stream s.outSeqNum s.clientKey
  rw [prefixBytes, List.append_assoc, List.getD_append_right _ _ _ _ (by omega), hlen]
  rfl

/-- Other messages carry no samples. -/
theorem sampleFor_prefixed (hs : s.sessionId < 0x80) (hid : id ≠ submsgWriteData) (length : UInt16)
    (rest : Bytes) (writer : ObjectId) :
    sampleFor writer (prefixBytes s id stream length ++ rest) = none := by
  have hother : ¬ HoldsSubmessage submsgWriteData
      (fun i => (prefixBytes s id stream length ++ rest).getD i 0)
      (prefixBytes s id stream length ++ rest).length := by
    rintro ⟨-, h⟩
    rw [headerLen_prefixed id stream hs] at h
    exact hid ((submessageId_prefixed id stream length rest).symm.trans h)
  rw [sampleFor, parse_eq, if_neg hother]

variable {oid : ObjectId} (body : Bytes)

theorem objectIdAt_message (wf : oid.Wf) :
    objectIdAt (fun i => (message s id stream oid body).getD i 0) 14 = oid := by
  have hlen := length_prefixBytes s id stream (UInt16.ofNat (4 + body.length))
  have hbyte (i : Nat) : (message s id stream oid body).getD (12 + i) 0 =
      (requestBytes s.nextRequestId oid ++ body).getD i 0 := by
    rw [message, List.getD_append_right _ _ _ _ (by omega), hlen, Nat.add_sub_cancel_left]
  have hfirst : (message s id stream oid body).getD 14 0 = (objectIdRaw oid)[0] := hbyte 2
  have hsecond : (message s id stream oid body).getD 15 0 = (objectIdRaw oid)[1] := hbyte 3
  rw [objectIdAt, hfirst, hsecond]
  exact congrArg₂ ObjectId.mk (unpack_id wf.id_lt oid.kind) (unpack_kind oid.id wf.kind_lt)

theorem drop_message : (message s id stream oid body).drop 16 = body := by
  rw [message, ← List.append_assoc]
  refine List.drop_left' ?_
  rw [List.length_append, length_prefixBytes, length_requestBytes]

theorem parse_message (hs : s.sessionId < 0x80) (wf : oid.Wf) :
    parse submsgWriteData readSample
        (fun i => (message s submsgWriteData stream oid body).getD i 0)
        (message s submsgWriteData stream oid body).length = some ⟨oid, 16, body.length⟩ := by
  have hheader : Session.headerLen ((message s submsgWriteData stream oid body).getD 0 0) = 8 :=
    headerLen_prefixed _ stream hs _ _
  have hid : (message s submsgWriteData stream oid body).getD 8 0 = submsgWriteData :=
    submessageId_prefixed _ stream _ _
  have hobject := objectIdAt_message submsgWriteData stream body wf (s := s)
  have hbytes := length_message s submsgWriteData stream oid body
  rw [parse_readSample_iff, hheader, hobject, hbytes, Nat.add_sub_cancel_left]
  exact ⟨by omega, hid, rfl⟩

/-- A WRITE_DATA carries its sample, for its writer. -/
theorem sampleFor_writeData (hs : s.sessionId < 0x80) (wf : oid.Wf) (writer : ObjectId) :
    sampleFor writer (message s submsgWriteData stream oid body) =
      if oid = writer then some body else none := by
  rw [sampleFor, parse_message stream body hs wf]
  simp only [drop_message, List.take_length]

end Message

theorem sampleFor_nil (writer : ObjectId) : sampleFor writer [] = none := by
  rw [sampleFor, parse_eq, if_neg fun h => absurd h.1 (by simp)]

/-- The bytes of a message that can be built. -/
theorem built_of_fits {r : Request} {cap : Nat} (h : r.Fits cap) (s : Session) (stream : UInt8) :
    ∃ body, r.format 16 = some body ∧ 16 + body.length = r.size ∧
      built (r.build stream s (fun _ => 0) cap) =
        message s r.submessageId stream r.objectId body := by
  obtain ⟨body, hbody, hsize⟩ := Request.spans_format h.1
  refine ⟨body, hbody, hsize, ?_⟩
  rw [r.build_fits stream s _ hbody (hsize ▸ h.2), ← length_message s r.submessageId stream]
  exact bytesOf_store _ _

/-- A WRITE_DATA whose sample fits its buffer. -/
theorem built_writeData (s : Session) (stream : UInt8) (oid : ObjectId) {sample : Bytes} {cap : Nat}
    (room : 16 + sample.length ≤ cap) :
    built (buildWriteData stream oid sample s (fun _ => 0) cap) =
      message s submsgWriteData stream oid sample := by
  obtain ⟨body, hbody, -, hbuilt⟩ :=
    built_of_fits (r := .writeData oid sample) ⟨trivial, room⟩ s stream
  obtain rfl := Option.some.inj hbody
  exact hbuilt

end Session

end RtosXrce.Xrce
