import RtosXrce.Xrce.CdrLayout
import RtosXrce.Xrce.Session

/-!
# What the session messages carry

Every numbered builder writes the same sixteen bytes in front, with a placeholder for the length
that is patched at the end. A message is therefore known up to its body, and the body by its CDR
format at offset 16.
-/

namespace RtosXrce.Xrce.Session

open Library Library.Fallible Cdr

/-! ## The frame of a request -/

theorem emits_u16 (v : UInt16) : Emits (writeU16 v) (word 2 v.toBitVec) := emits_i16 v.toInt16

theorem reads_u16 (v : UInt16) : Reads readU16 (word 2 v.toBitVec) v :=
  (reads_i16 v.toInt16).map fun v => v.toUInt16

def headerFormat (sessionId stream : UInt8) (seqNum : UInt16) (key : Vector UInt8 4) : Format :=
  (word 1 sessionId.toBitVec).seq <| (word 1 stream.toBitVec).seq <|
    (word 2 seqNum.toBitVec).seq (Format.raw key.toList)

def submessageFormat (id flags : UInt8) (length : UInt16) : Format :=
  (word 1 id.toBitVec).seq <| (word 1 flags.toBitVec).seq (word 2 length.toBitVec)

theorem emits_messageHeader (sessionId stream : UInt8) (seqNum : UInt16) (key : Vector UInt8 4) :
    Emits (writeMessageHeader sessionId stream seqNum key)
      (headerFormat sessionId stream seqNum key) :=
  (emits_u8 sessionId).seq <| (emits_u8 stream).seq <| (emits_u16 seqNum).seq (emits_emit _)

theorem emits_submessageHeader (id flags : UInt8) :
    Emits (writeSubmessageHeader id flags) (submessageFormat id flags 0) :=
  (emits_u8 id).seq <| (emits_u8 flags).seq (emits_u16 0)

/-- The eight bytes of a message header. -/
def headerBytes (sessionId stream : UInt8) (seqNum : UInt16) (key : Vector UInt8 4) : Bytes :=
  [sessionId, stream] ++ littleEndian 2 seqNum.toBitVec ++ key.toList

/-- The four bytes of a submessage header. -/
def submessageBytes (id flags : UInt8) (length : UInt16) : Bytes :=
  [id, flags] ++ littleEndian 2 length.toBitVec

/-- The four bytes in front of every request. -/
def requestBytes (requestId : UInt16) (oid : ObjectId) : Bytes :=
  (requestIdRaw requestId).toList ++ (objectIdRaw oid).toList

theorem emits_baseObjectRequest (requestId : UInt16) (oid : ObjectId) :
    Emits (writeBaseObjectRequest requestId oid) (Format.raw (requestBytes requestId oid)) :=
  (emits_emit _).seq (emits_emit _)

theorem headerFormat_zero (sessionId stream : UInt8) (seqNum : UInt16) (key : Vector UInt8 4) :
    headerFormat sessionId stream seqNum key 0 =
      some (headerBytes sessionId stream seqNum key) := by
  rw [headerFormat, word_one, word_one]
  simp [Format.seq, Format.raw, word, Format.aligned, Format.padding, headerBytes]

theorem submessageFormat_eight (id flags : UInt8) (length : UInt16) :
    submessageFormat id flags length 8 = some (submessageBytes id flags length) := by
  rw [submessageFormat, word_one, word_one]
  simp [Format.seq, Format.raw, word, Format.aligned, Format.padding, submessageBytes]

theorem length_headerBytes (sessionId stream : UInt8) (seqNum : UInt16) (key : Vector UInt8 4) :
    (headerBytes sessionId stream seqNum key).length = 8 := by
  simp [headerBytes]

theorem length_submessageBytes (id flags : UInt8) (length : UInt16) :
    (submessageBytes id flags length).length = 4 := by
  simp [submessageBytes]

theorem length_requestBytes (requestId : UInt16) (oid : ObjectId) :
    (requestBytes requestId oid).length = 4 := rfl

theorem exec_messageHeader (sessionId stream : UInt8) (seqNum : UInt16) (key : Vector UInt8 4)
    (buf : Nat → UInt8) {cap : Nat} (hcap : 8 ≤ cap) :
    (writeMessageHeader sessionId stream seqNum key).exec (writerInit buf cap) =
      (some (), (writerInit buf cap).put (headerBytes sessionId stream seqNum key)) := by
  apply (emits_messageHeader sessionId stream seqNum key).fits (wf_writerInit buf cap)
  · exact headerFormat_zero sessionId stream seqNum key
  · rw [length_headerBytes]
    exact hcap

theorem exec_messageHeader_short (sessionId stream : UInt8) (seqNum : UInt16)
    (key : Vector UInt8 4) (buf : Nat → UInt8) {cap : Nat} (hcap : cap < 8) :
    ∃ w, (writeMessageHeader sessionId stream seqNum key).exec (writerInit buf cap) =
      (none, w) := by
  have hshort : ∀ e, headerFormat sessionId stream seqNum key 0 = some e → cap < e.length := by
    intro e he
    obtain rfl := Option.some.inj ((headerFormat_zero sessionId stream seqNum key).symm.trans he)
    rwa [length_headerBytes]
  obtain ⟨w, hexec, -⟩ := (emits_messageHeader sessionId stream seqNum key).fails
    (wf_writerInit buf cap) hshort
  exact ⟨w, hexec⟩

/-- `submessageHeaderAt` is `writeSubmessageHeader`, with the position it started from. -/
theorem exec_submessageHeaderAt_eq (id flags : UInt8) (w : Writer) :
    (submessageHeaderAt id flags).exec w =
      exec (do writeSubmessageHeader id flags; return w.pos) w := rfl

section AfterHeader

variable {header : Bytes} (hlen : header.length = 8) (buf : Nat → UInt8) {cap : Nat}
include hlen

theorem exec_submessageHeaderAt (id flags : UInt8) (hcap : 12 ≤ cap) :
    (submessageHeaderAt id flags).exec ((writerInit buf cap).put header) =
      (some 8, (writerInit buf cap).put (header ++ submessageBytes id flags 0)) := by
  have hexec := (emits_submessageHeader id flags).fits
    (wf_put_writerInit buf (e := header) (by omega : header.length ≤ cap))
    (by rw [off_put_writerInit, hlen]; exact submessageFormat_eight id flags 0)
    (by rw [room_put_writerInit, hlen, length_submessageBytes]; omega)
  have hpos : ((writerInit buf cap).put header).pos = 8 := (Nat.zero_add _).trans hlen
  rw [exec_submessageHeaderAt_eq, exec_bind_of_some hexec, Writer.put_append, hpos]
  rfl

theorem exec_submessageHeaderAt_short (id flags : UInt8) (hhead : 8 ≤ cap) (hcap : cap < 12) :
    ∃ w, (submessageHeaderAt id flags).exec ((writerInit buf cap).put header) = (none, w) := by
  obtain ⟨w, hexec, -⟩ := (emits_submessageHeader id flags).fails
    (wf_put_writerInit buf (e := header) (by omega : header.length ≤ cap)) fun e he => by
      rw [off_put_writerInit, hlen, submessageFormat_eight] at he
      obtain rfl := Option.some.inj he
      rw [room_put_writerInit, hlen, length_submessageBytes]
      omega
  exact ⟨w, by rw [exec_submessageHeaderAt_eq, exec_bind_of_none hexec]⟩

end AfterHeader

/-- The session after a numbered message. -/
def next (s : Session) : Session :=
  { s with outSeqNum := s.outSeqNum + 1, nextRequestId := s.nextRequestId + 1 }

/-- The bytes in front of the payload of a numbered message. -/
def prefixBytes (s : Session) (id stream : UInt8) (length : UInt16) : Bytes :=
  headerBytes s.sessionId stream s.outSeqNum s.clientKey ++
    submessageBytes id flagEndiannessLe length

theorem length_prefixBytes (s : Session) (id stream : UInt8) (length : UInt16) :
    (prefixBytes s id stream length).length = 12 := by
  rw [prefixBytes, List.length_append, length_headerBytes, length_submessageBytes]

/-- With room for the prefix, both counters move and only the payload can fail. -/
theorem buildRequest_of_room (s : Session) (id stream : UInt8) (oid : ObjectId)
    (rest : Write Unit) (buf : Nat → UInt8) {cap : Nat} (hcap : 12 ≤ cap) :
    buildRequest id stream oid rest s buf cap =
      match exec (do writeBaseObjectRequest s.nextRequestId oid; rest)
          ((writerInit buf cap).put (prefixBytes s id stream 0)) with
      | (none, w) => ⟨0, s.next, w.buf⟩
      | (some _, w) => ⟨w.pos, s.next, backpatchLength w.buf 8 (w.pos - 12)⟩ := by
  have hstart : ((writerInit buf cap).put (prefixBytes s id stream 0)).pos = 12 :=
    (Nat.zero_add _).trans (length_prefixBytes s id stream 0)
  rw [buildRequest, exec_messageHeader _ _ _ _ buf (by omega)]
  simp only [exec_submessageHeaderAt (length_headerBytes _ _ _ _) buf _ _ hcap]
  rw [← hstart]
  rfl

theorem size_buildRequest_short (s : Session) (id stream : UInt8) (oid : ObjectId)
    (rest : Write Unit) (buf : Nat → UInt8) {cap : Nat} (hcap : cap < 12) :
    (buildRequest id stream oid rest s buf cap).size = 0 := by
  by_cases hhead : 8 ≤ cap
  · obtain ⟨w, hsub⟩ := exec_submessageHeaderAt_short (length_headerBytes s.sessionId stream
      s.outSeqNum s.clientKey) buf id flagEndiannessLe hhead hcap
    simp only [buildRequest, exec_messageHeader _ _ _ _ buf hhead, hsub]
  · obtain ⟨w, hheader⟩ := exec_messageHeader_short s.sessionId stream s.outSeqNum s.clientKey buf
      (Nat.not_le.mp hhead)
    simp only [buildRequest, hheader]

/-- A numbered message with the body `body`. -/
def message (s : Session) (id stream : UInt8) (oid : ObjectId) (body : Bytes) : Bytes :=
  prefixBytes s id stream (UInt16.ofNat (4 + body.length)) ++
    (requestBytes s.nextRequestId oid ++ body)

theorem length_message (s : Session) (id stream : UInt8) (oid : ObjectId) (body : Bytes) :
    (message s id stream oid body).length = 16 + body.length := by
  simp only [message, List.length_append, length_prefixBytes, length_requestBytes]
  omega

/-- Storing over bytes in the middle of what was stored before. -/
theorem store_middle (buf : Nat → UInt8) (a : Bytes) {b b' : Bytes} (hb : b'.length = b.length)
    (c : Bytes) :
    store (store buf 0 (a ++ (b ++ c))) a.length b' = store buf 0 (a ++ (b' ++ c)) := by
  have hparts (b : Bytes) : store buf 0 (a ++ (b ++ c)) =
      store (store (store buf 0 a) a.length b) (a.length + b.length) c := by
    rw [store_append (store buf 0 a), ← Nat.zero_add a.length, store_append]
  funext i
  rw [hparts, hparts]
  simp only [store, hb]
  by_cases hmid : a.length ≤ i ∧ i < a.length + b.length
  · rw [if_pos hmid, if_neg (by omega), if_pos hmid]
  · rw [if_neg hmid, if_neg hmid, if_neg hmid]

/-- The two bytes of a length, low first. -/
theorem littleEndian_length (n : Nat) :
    littleEndian 2 (UInt16.ofNat n).toBitVec =
      [UInt8.ofNat (n &&& 0xFF), UInt8.ofNat ((n >>> 8) &&& 0xFF)] := by
  have hmask (x : Nat) : x &&& 0xFF = x % 256 := Nat.and_two_pow_sub_one_eq_mod x 8
  have hlow : UInt8.ofNat (n &&& 0xFF) = ⟨(BitVec.ofNat 16 n).extractLsb' 0 8⟩ := by
    apply UInt8.toNat_inj.mp
    simp [hmask]
  have hhigh : UInt8.ofNat ((n >>> 8) &&& 0xFF) = ⟨(BitVec.ofNat 16 n).extractLsb' 8 8⟩ := by
    apply UInt8.toNat_inj.mp
    simp [hmask, Nat.shiftRight_eq_div_pow]
    omega
  simp only [hlow, hhigh, littleEndian, List.ofFn_succ]
  rfl

theorem backpatchLength_eq (buf : Nat → UInt8) (n : Nat) :
    backpatchLength buf 8 n = store buf 10 (littleEndian 2 (UInt16.ofNat n).toBitVec) := by
  rw [littleEndian_length]
  rfl

/-- The length goes where the placeholder was. -/
theorem backpatchLength_prefix (buf : Nat → UInt8) (s : Session) (id stream : UInt8) (n : Nat)
    (payload : Bytes) :
    backpatchLength (store buf 0 (prefixBytes s id stream 0 ++ payload)) 8 n =
      store buf 0 (prefixBytes s id stream (UInt16.ofNat n) ++ payload) := by
  have hsplit (length : UInt16) : prefixBytes s id stream length ++ payload =
      (headerBytes s.sessionId stream s.outSeqNum s.clientKey ++ [id, flagEndiannessLe]) ++
        (littleEndian 2 length.toBitVec ++ payload) := by
    simp [prefixBytes, submessageBytes]
  have hlen : (headerBytes s.sessionId stream s.outSeqNum s.clientKey ++
      [id, flagEndiannessLe]).length = 10 := by
    rw [List.length_append, length_headerBytes]
    rfl
  rw [backpatchLength_eq, hsplit, hsplit, ← hlen, store_middle]
  rw [length_littleEndian, length_littleEndian]

section Payload

variable {rest : Write Unit} {f : Format} (hrest : Emits rest f) (s : Session)
  (id stream : UInt8) (oid : ObjectId) (buf : Nat → UInt8) {cap : Nat}
include hrest

theorem buildRequest_fits {body : Bytes} (hbody : f 16 = some body)
    (hcap : 16 + body.length ≤ cap) :
    buildRequest id stream oid rest s buf cap =
      ⟨16 + body.length, s.next, store buf 0 (message s id stream oid body)⟩ := by
  let payload := requestBytes s.nextRequestId oid ++ body
  have hlen : (prefixBytes s id stream 0).length = 12 := length_prefixBytes _ _ _ _
  have hpayload : payload.length = 4 + body.length := by
    rw [List.length_append, length_requestBytes]
  have wf : ((writerInit buf cap).put (prefixBytes s id stream 0)).Wf :=
    wf_put_writerInit buf (by omega)
  have hformat : ((Format.raw (requestBytes s.nextRequestId oid)).seq f) 12 = some payload :=
    Format.seq_eq_some.mpr ⟨_, body, rfl, hbody, rfl⟩
  have hexec := ((emits_baseObjectRequest s.nextRequestId oid).seq hrest).fits wf
    (by rw [off_put_writerInit, hlen]; exact hformat)
    (by rw [room_put_writerInit, hlen, hpayload]; omega)
  have hpos : ((writerInit buf cap).put (prefixBytes s id stream 0 ++ payload)).pos =
      16 + body.length := by
    simp only [Writer.put, writerInit, List.length_append, hlen, hpayload]
    omega
  rw [buildRequest_of_room s id stream oid rest buf (by omega), hexec, Writer.put_append]
  simp only [hpos, Built.mk.injEq, true_and]
  rw [show 16 + body.length - 12 = 4 + body.length by omega]
  exact backpatchLength_prefix buf s id stream _ payload

theorem buildRequest_fails (hbody : ∀ body, f 16 = some body → cap < 16 + body.length) :
    (buildRequest id stream oid rest s buf cap).size = 0 := by
  by_cases hcap : 12 ≤ cap
  · have hlen : (prefixBytes s id stream 0).length = 12 := length_prefixBytes _ _ _ _
    have wf : ((writerInit buf cap).put (prefixBytes s id stream 0)).Wf :=
      wf_put_writerInit buf (by omega)
    obtain ⟨w, hexec, -⟩ := ((emits_baseObjectRequest s.nextRequestId oid).seq hrest).fails wf
      fun e he => by
        rw [off_put_writerInit, hlen] at he
        obtain ⟨request, body, hrequest, hf, rfl⟩ := Format.seq_eq_some.mp he
        obtain rfl := Option.some.inj hrequest
        have hlong := hbody body hf
        rw [room_put_writerInit, hlen, List.length_append, length_requestBytes]
        omega
    rw [buildRequest_of_room s id stream oid rest buf hcap, hexec]
  · exact size_buildRequest_short s id stream oid rest buf (Nat.not_le.mp hcap)

end Payload

/-! ## Requests -/

/-- What one of the builders of numbered messages is asked for. -/
inductive Request where
  | createParticipant (objectId : ObjectId) (domainId : Int16) (xml : CString)
  | createXml (objectId parentId : ObjectId) (xml : CString)
  | writeData (datawriterId : ObjectId) (sample : Bytes)
  | readData (datareaderId : ObjectId) (preferredStream : UInt8)
  | delete (objectId : ObjectId)

namespace Request

def build (stream : UInt8) : Request → Build
  | .createParticipant oid domainId xml => buildCreateParticipant stream oid domainId xml
  | .createXml oid parentId xml => buildCreateXml stream oid parentId xml
  | .writeData oid sample => buildWriteData stream oid sample
  | .readData oid preferredStream => buildReadData stream oid preferredStream
  | .delete oid => buildDelete stream oid

def objectId : Request → ObjectId
  | .createParticipant oid _ _ | .createXml oid _ _ | .writeData oid _ | .readData oid _
  | .delete oid => oid

/-- Every object id that goes into the message. -/
def objectIds : Request → List ObjectId
  | .createXml oid parentId _ => [oid, parentId]
  | r => [r.objectId]

def submessageId : Request → UInt8
  | .createParticipant .. | .createXml .. => submsgCreate
  | .writeData .. => submsgWriteData
  | .readData .. => submsgReadData
  | .delete .. => submsgDelete

/-- The bytes of the whole message. A string starts at 24, behind its count, and the domain id
behind it is aligned. -/
def size : Request → Nat
  | .createParticipant _ _ xml => 24 + (xml.chars.length + 1) + (xml.chars.length + 1) % 2 + 2
  | .createXml _ _ xml => 24 + (xml.chars.length + 1) + 2
  | .writeData _ sample => 16 + sample.length
  | .readData .. => 28
  | .delete .. => 16

/-- What stands behind the object id. -/
def format : Request → Format
  | .createParticipant oid domainId xml =>
    (word 1 oid.kind.toBitVec).seq <| (word 1 representationAsXmlString.toBitVec).seq <|
      (stringFormat xml).seq (word 2 domainId.toBitVec)
  | .createXml oid parentId xml =>
    (word 1 oid.kind.toBitVec).seq <| (word 1 representationAsXmlString.toBitVec).seq <|
      (stringFormat xml).seq (Format.raw (objectIdRaw parentId).toList)
  | .writeData _ sample => Format.raw sample
  | .readData _ preferredStream =>
    (word 1 preferredStream.toBitVec).seq <| (word 1 formatData.toBitVec).seq <|
      (word 1 0).seq <| (word 1 1).seq <| (word 2 0xFFFF).seq <| (word 2 0).seq <|
        (word 2 0).seq (word 2 0)
  | .delete _ => Format.nil

theorem exists_build_eq (r : Request) (stream : UInt8) : ∃ rest, Emits rest r.format ∧
    r.build stream = buildRequest r.submessageId stream r.objectId rest := by
  cases r with
  | createParticipant oid domainId xml =>
    exact ⟨_, (emits_u8 _).seq <| (emits_u8 _).seq <| (emits_string xml).seq (emits_i16 _), rfl⟩
  | createXml oid parentId xml =>
    exact ⟨_, (emits_u8 _).seq <| (emits_u8 _).seq <| (emits_string xml).seq (emits_emit _), rfl⟩
  | writeData oid sample => exact ⟨_, emits_emit sample, rfl⟩
  | readData oid preferredStream =>
    exact ⟨_, (emits_u8 _).seq <| (emits_u8 _).seq <| (emits_u8 0).seq <| (emits_u8 1).seq <|
      (emits_u16 0xFFFF).seq <| (emits_u16 0).seq <| (emits_u16 0).seq (emits_u16 0), rfl⟩
  | delete oid => exact ⟨_, .pure, rfl⟩

theorem build_fits (r : Request) (stream : UInt8) (s : Session) (buf : Nat → UInt8) {cap : Nat}
    {body : Bytes} (hbody : r.format 16 = some body) (hcap : 16 + body.length ≤ cap) :
    r.build stream s buf cap = ⟨16 + body.length, s.next,
      store buf 0 (message s r.submessageId stream r.objectId body)⟩ := by
  obtain ⟨rest, hrest, hbuild⟩ := r.exists_build_eq stream
  rw [hbuild]
  exact buildRequest_fits hrest s _ stream _ buf hbody hcap

theorem build_fails (r : Request) (stream : UInt8) (s : Session) (buf : Nat → UInt8) {cap : Nat}
    (hbody : ∀ body, r.format 16 = some body → cap < 16 + body.length) :
    (r.build stream s buf cap).size = 0 := by
  obtain ⟨rest, hrest, hbuild⟩ := r.exists_build_eq stream
  rw [hbuild]
  exact buildRequest_fails hrest s _ stream _ buf hbody

/-- A call that does not return 0 has written a whole message and counted both numbers up. -/
theorem build_of_size_ne_zero {r : Request} {stream : UInt8} {s : Session} {buf : Nat → UInt8}
    {cap : Nat} (hsize : (r.build stream s buf cap).size ≠ 0) :
    ∃ body, r.build stream s buf cap = ⟨16 + body.length, s.next,
      store buf 0 (message s r.submessageId stream r.objectId body)⟩ := by
  by_contra hnone
  refine hsize (r.build_fails stream s buf fun body hbody => ?_)
  by_contra hcap
  exact hnone ⟨body, r.build_fits stream s buf hbody (Nat.not_lt.mp hcap)⟩

/-- The XML text of a create fits the 32-bit count in front of it. -/
def TextFits : Request → Prop
  | .createParticipant _ _ xml | .createXml _ _ xml => xml.chars.length + 1 < 2 ^ 32
  | .writeData .. | .readData .. | .delete .. => True

instance : DecidablePred TextFits
  | .createParticipant _ _ xml | .createXml _ _ xml =>
    inferInstanceAs (Decidable (xml.chars.length + 1 < 2 ^ 32))
  | .writeData .. | .readData .. | .delete .. => inferInstanceAs (Decidable True)

theorem textFits_of_size {r : Request} (h : r.size - 12 ≤ 65535) : r.TextFits := by
  cases r with
  | createParticipant | createXml =>
    simp only [size] at h
    simp only [TextFits]
    omega
  | writeData | readData | delete => trivial

theorem spans_format {r : Request} (h : r.TextFits) : r.format.Spans 16 r.size := by
  cases r with
  | createParticipant oid domainId xml =>
    have hend := spans_word 2 domainId.toBitVec (24 + (xml.chars.length + 1))
    have hpad : Format.padding 2 (24 + (xml.chars.length + 1)) = (xml.chars.length + 1) % 2 := by
      simp only [Format.padding]
      omega
    rw [hpad] at hend
    exact (spans_word 1 _ 16).seq <| (spans_word 1 _ 17).seq <| (spans_string h 18).seq hend
  | createXml oid parentId xml =>
    exact (spans_word 1 _ 16).seq <| (spans_word 1 _ 17).seq <|
      (spans_string h 18).seq (Format.spans_raw _ _)
  | writeData oid sample => exact Format.spans_raw sample 16
  | readData oid preferredStream =>
    exact (spans_word 1 _ 16).seq <| (spans_word 1 _ 17).seq <| (spans_word 1 _ 18).seq <|
      (spans_word 1 _ 19).seq <| (spans_word 2 _ 20).seq <| (spans_word 2 _ 22).seq <|
        (spans_word 2 _ 24).seq (spans_word 2 _ 26)
  | delete oid => exact Format.spans_raw [] 16

/-- A text that is too long has no encoding. -/
theorem format_of_not_textFits {r : Request} (h : ¬ r.TextFits) (off : Nat) :
    r.format off = none := by
  have hseq (a b : UInt8) (xml : CString) (tail : Format) (hxml : ¬ xml.chars.length + 1 < 2 ^ 32) :
      ((word 1 a.toBitVec).seq <| (word 1 b.toBitVec).seq <| (stringFormat xml).seq tail) off =
        none := by
    rw [Option.eq_none_iff_forall_ne_some]
    intro e he
    obtain ⟨_, _, _, he, _⟩ := Format.seq_eq_some.mp he
    obtain ⟨_, _, _, he, _⟩ := Format.seq_eq_some.mp he
    obtain ⟨_, _, hstring, _⟩ := Format.seq_eq_some.mp he
    rw [stringFormat, if_neg hxml] at hstring
    cases hstring
  cases r with
  | createParticipant oid domainId xml => exact hseq _ _ xml _ h
  | createXml oid parentId xml => exact hseq _ _ xml _ h
  | writeData | readData | delete => exact absurd trivial h

/-- The whole message can be built in `cap` bytes. -/
def Fits (r : Request) (cap : Nat) : Prop := r.TextFits ∧ r.size ≤ cap

instance (r : Request) (cap : Nat) : Decidable (r.Fits cap) :=
  inferInstanceAs (Decidable (r.TextFits ∧ r.size ≤ cap))

/-- A builder succeeds exactly when its message fits. -/
theorem size_build_eq_zero_iff (r : Request) (stream : UInt8) (s : Session) (buf : Nat → UInt8)
    (cap : Nat) : (r.build stream s buf cap).size = 0 ↔ ¬ r.Fits cap := by
  constructor
  · rintro hzero ⟨htext, hcap⟩
    obtain ⟨body, hbody, hsize⟩ := spans_format htext
    rw [r.build_fits stream s buf hbody (by omega)] at hzero
    exact absurd hzero (by simp only [Nat.add_eq_zero_iff]; omega)
  · intro hnot
    refine r.build_fails stream s buf fun body hbody => ?_
    have htext : r.TextFits := by
      by_contra hlong
      rw [format_of_not_textFits hlong] at hbody
      cases hbody
    obtain ⟨_, hspan, hsize⟩ := spans_format htext
    obtain rfl := Option.some.inj (hspan.symm.trans hbody)
    have hcap : ¬ r.size ≤ cap := fun hcap => hnot ⟨htext, hcap⟩
    omega

/-- The counters are advanced as soon as the message header is written. -/
theorem session_build (r : Request) (stream : UInt8) (s : Session) (buf : Nat → UInt8)
    (cap : Nat) : (r.build stream s buf cap).session =
      if cap < 8 then s else if cap < 12 then { s with outSeqNum := s.outSeqNum + 1 }
        else s.next := by
  obtain ⟨rest, -, hbuild⟩ := r.exists_build_eq stream
  rw [hbuild]
  split_ifs with hhead hsub
  · obtain ⟨w, hheader⟩ :=
      exec_messageHeader_short s.sessionId stream s.outSeqNum s.clientKey buf hhead
    simp only [buildRequest, hheader]
  · obtain ⟨w, hsubmessage⟩ := exec_submessageHeaderAt_short (length_headerBytes s.sessionId stream
      s.outSeqNum s.clientKey) buf r.submessageId flagEndiannessLe (Nat.not_lt.mp hhead) hsub
    simp only [buildRequest, exec_messageHeader _ _ _ _ buf (Nat.not_lt.mp hhead), hsubmessage]
  · rw [buildRequest_of_room s _ stream _ rest buf (Nat.not_lt.mp hsub)]
    split <;> rfl

end Request

end RtosXrce.Xrce.Session
