import RtosXrce.Xrce.SerialEncoder
import RtosXrce.Xrce.SessionMessages
import RtosXrce.Xrce.ReaderSafety

/-!
# Length fields

Frames and submessages carry a 16-bit length. The frame encoder and the builders are given sizes of
any magnitude and write their low 16 bits; `xrce_session_parse_data` reads the length of its
submessage and goes by the length of the buffer instead.
-/

namespace RtosXrce.Xrce

open Library Library.Fallible Cdr

/-! ## Lengths written -/

namespace Serial

/-- The length field of a frame on the wire. -/
def frameLength (bytes : Bytes) : Option UInt16 :=
  match stuffing.unstuff false bytes.tail with
  | some (_ :: _ :: lsb :: msb :: _) => some (word lsb msb)
  | _ => none

theorem toNat_word_ofNat_mod (n : Nat) :
    (word (UInt8.ofNat n) (UInt8.ofNat (n >>> 8))).toNat = n % 65536 := by
  rw [toNat_word, UInt8.toNat_ofNat', UInt8.toNat_ofNat', Nat.shiftRight_eq_div_pow]
  omega

theorem frameLength_wire (src dst : UInt8) (payload : Bytes) :
    frameLength (wire src dst payload) =
      some (word (UInt8.ofNat payload.length) (UInt8.ofNat (payload.length >>> 8))) := by
  have octets : stuffing.unstuff false (wire src dst payload).tail =
      some (frameOctets src dst payload) := stuffing.unstuff_stuff _
  rw [frameLength, octets]
  rfl

end Serial

namespace Session

/-- The length field of the submessage of a numbered message. -/
def submessageLength (buf : Nat → UInt8) : UInt16 := Serial.word (buf 10) (buf 11)

theorem submessageLength_message (buf : Nat → UInt8) (s : Session) (id stream : UInt8)
    (oid : ObjectId) (body : Bytes) :
    (submessageLength (store buf 0 (message s id stream oid body))).toNat =
      (4 + body.length) % 65536 := by
  let n := 4 + body.length
  have split : message s id stream oid body =
      (headerBytes s.sessionId stream s.outSeqNum s.clientKey ++ [id, flagEndiannessLe]) ++
        (littleEndian 2 (UInt16.ofNat n).toBitVec ++
          (requestBytes s.nextRequestId oid ++ body)) := by
    simp [message, prefixBytes, submessageBytes, n]
  have front : (headerBytes s.sessionId stream s.outSeqNum s.clientKey ++
      [id, flagEndiannessLe]).length = 10 := by
    rw [List.length_append, length_headerBytes]
    rfl
  have total := length_message s id stream oid body
  have byte : ∀ i < 2, store buf 0 (message s id stream oid body) (10 + i) =
      (littleEndian 2 (UInt16.ofNat n).toBitVec).getD i 0 := by
    intro i hi
    rw [store, if_pos (by omega), split, Nat.sub_zero, List.getD_append_right _ _ _ _ (by omega),
      front, Nat.add_sub_cancel_left, List.getD_append _ _ _ _ (by simpa using hi)]
  have hmask (x : Nat) : x &&& 0xFF = x % 256 := Nat.and_two_pow_sub_one_eq_mod x 8
  rw [littleEndian_length] at byte
  rw [submessageLength, byte 0 (by decide), byte 1 (by decide), Serial.toNat_word]
  simp only [hmask, List.getD_cons_zero, List.getD_cons_succ, UInt8.toNat_ofNat',
    Nat.shiftRight_eq_div_pow]
  omega

/-- A successful call returns the size of its message and writes its low 16 bits. -/
theorem Request.submessageLength_build {r : Request} {stream : UInt8} {s : Session}
    {buf : Nat → UInt8} {cap : Nat} (success : (r.build stream s buf cap).size ≠ 0) :
    (r.build stream s buf cap).size = r.size ∧ 12 ≤ r.size ∧
      (submessageLength (r.build stream s buf cap).buf).toNat = (r.size - 12) % 65536 := by
  have fits : r.Fits cap := by
    by_contra h
    exact success ((r.size_build_eq_zero_iff stream s buf cap).mpr h)
  obtain ⟨body, hbody, hsize⟩ := spans_format fits.1
  have room : 16 + body.length ≤ cap := hsize ▸ fits.2
  rw [r.build_fits stream s buf hbody room]
  refine ⟨hsize, by omega, ?_⟩
  rw [submessageLength_message, ← hsize]
  congr 1
  omega

end Session

/-- A frame's length field is its payload's length, and a submessage's length the number of bytes
behind its header, exactly when that number has 16 bits. -/
theorem lengthFields_iff (outCap : Nat) (src dst : UInt8) (payload : Bytes) (r : Session.Request)
    (stream : UInt8) (s : Session) (buf : Nat → UInt8) (cap : Nat) :
    ((Serial.frameEncode outCap src dst payload).1 ≠ 0 →
      ((Serial.frameLength (Serial.frameEncode outCap src dst payload).2).map UInt16.toNat =
          some payload.length ↔ payload.length ≤ 65535)) ∧
    ((r.build stream s buf cap).size ≠ 0 →
      ((Session.submessageLength (r.build stream s buf cap).buf).toNat =
          (r.build stream s buf cap).size - 12 ↔ r.size - 12 ≤ 65535)) := by
  constructor
  · intro success
    rw [Serial.frameEncode_bytes success, Serial.frameLength_wire, Option.map_some,
      Serial.toNat_word_ofNat_mod, Option.some.injEq]
    omega
  · intro success
    obtain ⟨hsize, hprefix, hfield⟩ := Session.Request.submessageLength_build success
    rw [hfield, hsize]
    omega

/-- A frame of one byte, and a sample of one byte. -/
theorem lengthFields_iff_byte :
    (Serial.frameLength (Serial.frameEncode 32 1 2 [0x42]).2).map UInt16.toNat = some 1 ∧
      (Session.submessageLength ((Session.Request.writeData ⟨1, 5⟩ [0x42]).build 1
        (Session.init 5 #v[7, 7, 7, 7] 512) (fun _ => 0) 64).buf).toNat = 5 := by
  obtain ⟨frame, submessage⟩ := lengthFields_iff 32 1 2 [0x42] (.writeData ⟨1, 5⟩ [0x42]) 1
    (Session.init 5 #v[7, 7, 7, 7] 512) (fun _ => 0) 64
  exact ⟨(frame (by decide)).mpr (by decide), (submessage (by decide)).mpr (by decide)⟩

/-- A payload of 65536 bytes goes out with the length 0, and so does a sample of 65532 bytes, which
the ids in front of it bring to 65536. -/
theorem length_fields_truncated :
    (∃ outCap payload, (Serial.frameEncode outCap 1 2 payload).1 ≠ 0 ∧ payload.length = 65536 ∧
      (Serial.frameLength (Serial.frameEncode outCap 1 2 payload).2).map UInt16.toNat = some 0) ∧
    ∃ (r : Session.Request) (s : Session) (buf : Nat → UInt8) (cap : Nat),
      (r.build 1 s buf cap).size = 65548 ∧
      (Session.submessageLength (r.build 1 s buf cap).buf).toNat = 0 := by
  constructor
  · obtain ⟨payload, hlen⟩ : ∃ p : Bytes, p.length = 65536 :=
      ⟨List.replicate 65536 0, List.length_replicate⟩
    have encoded := Serial.frameEncode_of_le (le_refl (Serial.wire 1 2 payload).length)
    refine ⟨(Serial.wire 1 2 payload).length, payload, ?_, hlen, ?_⟩
    · rw [encoded]
      simp [Serial.wire]
    · rw [encoded, Serial.frameLength_wire, Option.map_some, Serial.toNat_word_ofNat_mod, hlen]
  · obtain ⟨sample, hlen⟩ : ∃ p : Bytes, p.length = 65532 :=
      ⟨List.replicate 65532 0, List.length_replicate⟩
    let s := Session.init 5 #v[7, 7, 7, 7] 512
    have success : ((Session.Request.writeData ⟨1, 5⟩ sample).build 1 s (fun _ => 0) 65548).size ≠
        0 := by
      rw [Ne, Session.Request.size_build_eq_zero_iff, not_not]
      refine ⟨trivial, ?_⟩
      simp only [Session.Request.size, hlen]
      omega
    obtain ⟨hsize, -, hfield⟩ := Session.Request.submessageLength_build success
    refine ⟨_, s, fun _ => 0, 65548, hsize.trans ?_, hfield.trans ?_⟩
    · simp only [Session.Request.size, hlen]
    · simp only [Session.Request.size, hlen]

/-! ## A length read -/

namespace Session

/-- The buffer holds a message header, the header of a DATA submessage, and two ids behind it. -/
def HoldsData (buf : Nat → UInt8) (len : Nat) : Prop :=
  2 ≤ len ∧ headerLen (buf 0) + 8 ≤ len ∧ buf (headerLen (buf 0)) = submsgData

instance (buf : Nat → UInt8) (len : Nat) : Decidable (HoldsData buf len) :=
  inferInstanceAs (Decidable (_ ∧ _ ∧ _))

/-- The length the first submessage declares. -/
def declaredLength (buf : Nat → UInt8) : Nat :=
  (Serial.word (buf (headerLen (buf 0) + 2)) (buf (headerLen (buf 0) + 3))).toNat

/-- What is accepted is a DATA submessage with all its declared bytes, and the sample is what they
hold behind the two ids; a submessage that is cut off is refused. -/
def RespectsLength (buf : Nat → UInt8) (len : Nat) : Prop :=
  (∀ data, parseData buf len = some data →
    HoldsData buf len ∧ 4 ≤ declaredLength buf ∧
      headerLen (buf 0) + 4 + declaredLength buf ≤ len ∧
      data.sampleStart = headerLen (buf 0) + 8 ∧ data.sampleLen = declaredLength buf - 4) ∧
  (headerLen (buf 0) + 4 ≤ len → len < headerLen (buf 0) + 4 + declaredLength buf →
    parseData buf len = none)

/-- A read of `n` bytes that starts on a boundary. -/
def taken {α : Type} (n : Nat) (value : Cdr.Reader → α) (r : Cdr.Reader) :
    Option α × Cdr.Reader :=
  if r.pos + n ≤ r.len then (some (value r), r.skip n) else (none, r)

theorem exec_fetch_eq {n : Nat} (hn : 0 < n) (r : Cdr.Reader) :
    exec (fetch n) r = taken n (fun r => Vector.ofFn fun i => r.buf (r.pos + i)) r := by
  have room : n ≤ r.rest.length ↔ r.pos + n ≤ r.len := by
    rw [r.length_rest]
    omega
  simp only [exec_fetch, taken, room]

theorem exec_map {α β : Type} {read : Read α} {n : Nat} {value : Cdr.Reader → α} {r : Cdr.Reader}
    (h : exec read r = taken n value r) (g : α → β) :
    exec (do let a ← read; return g a) r = taken n (fun r => g (value r)) r := by
  unfold taken at h ⊢
  by_cases room : r.pos + n ≤ r.len
  · rw [if_pos room] at h ⊢
    exact exec_bind_of_some h
  · rw [if_neg room] at h ⊢
    exact exec_bind_of_none h

theorem exec_readU8 (r : Cdr.Reader) : exec readU8 r = taken 1 (fun r => r.buf r.pos) r := by
  rw [readU8, exec_map (exec_fetch_eq (by decide) r)]
  simp

theorem exec_readU16 {r : Cdr.Reader} (even : r.off % 2 = 0) :
    exec readU16 r = taken 2 (fun r => Serial.word (r.buf r.pos) (r.buf (r.pos + 1))) r := by
  have pad : Format.padding 2 r.off = 0 := by simp [Format.padding, even]
  have align : exec (alignReader 2) r = (some (), r) := by
    rw [exec_alignReader (by decide), pad, if_pos (Nat.zero_le _)]
    rfl
  have signed : exec readI16 r = taken 2
      (fun r => (gatherU16 (Vector.ofFn fun i => r.buf (r.pos + i))).toInt16) r := by
    rw [readI16, exec_bind_of_some align, exec_map (exec_fetch_eq (by decide) r)]
  rw [readU16, exec_map signed]
  simp [gatherU16, Serial.word]

theorem exec_readObjectId (r : Cdr.Reader) :
    ∃ value : Cdr.Reader → ObjectId, exec readObjectId r = taken 2 value r :=
  ⟨_, exec_map (exec_fetch_eq (by decide) r) _⟩

theorem taken_eq_some {α : Type} {n : Nat} {value : Cdr.Reader → α} {r r' : Cdr.Reader} {a : α}
    (h : taken n value r = (some a, r')) : r.pos + n ≤ r.len ∧ a = value r ∧ r' = r.skip n := by
  unfold taken at h
  split at h
  next room =>
    cases h
    exact ⟨room, rfl, rfl⟩
  next => cases h

theorem taken_of_le {α : Type} {n : Nat} (value : Cdr.Reader → α) {r : Cdr.Reader}
    (room : r.pos + n ≤ r.len) : taken n value r = (some (value r), r.skip n) := by
  rw [taken, if_pos room]

/-- The reader behind the message header. -/
def behindHeader (buf : Nat → UInt8) (len : Nat) : Cdr.Reader :=
  ⟨buf, len, headerLen (buf 0), 0⟩

theorem exec_skipMessageHeader_eq_some {buf : Nat → UInt8} {len : Nat} {u : Unit}
    {r : Cdr.Reader} (h : exec skipMessageHeader (readerInit buf len) = (some u, r)) :
    2 ≤ len ∧ r = behindHeader buf len := by
  rw [Memory.exec_skipMessageHeader_read] at h
  split at h
  next => cases h
  next two =>
    split at h
    next => cases h
    next =>
      cases h
      exact ⟨Nat.not_lt.mp two, rfl⟩

theorem exec_skipMessageHeader_of_le {buf : Nat → UInt8} {len : Nat} (two : 2 ≤ len)
    (room : headerLen (buf 0) ≤ len) :
    exec skipMessageHeader (readerInit buf len) = (some (), behindHeader buf len) := by
  have two' : ¬ (readerInit buf len).len < 2 := Nat.not_lt.mpr two
  have room' : ¬ (readerInit buf len).len < headerLen ((readerInit buf len).buf 0) :=
    Nat.not_lt.mpr room
  rw [Memory.exec_skipMessageHeader_read, if_neg two', if_neg room']
  rfl

/-- The length field of the first submessage stands on a boundary. -/
theorem exec_readLength (buf : Nat → UInt8) (len : Nat) :
    exec readU16 (((behindHeader buf len).skip 1).skip 1) =
      taken 2 (fun r => Serial.word (r.buf r.pos) (r.buf (r.pos + 1)))
        (((behindHeader buf len).skip 1).skip 1) := by
  apply exec_readU16
  rcases Memory.headerLen_cases (buf 0) with h | h <;>
    simp [behindHeader, Cdr.Reader.off, Cdr.Reader.skip, h]

/-- The sample is everything behind the two ids, whatever the length field says. -/
theorem holdsData_of_parseData {buf : Nat → UInt8} {len : Nat} {data : Data}
    (h : parseData buf len = some data) :
    HoldsData buf len ∧ data.sampleStart = headerLen (buf 0) + 8 ∧
      data.sampleLen = len - (headerLen (buf 0) + 8) := by
  obtain ⟨r, hrun⟩ : ∃ r, exec _ (readerInit buf len) = (some data, r) := ⟨_, Prod.ext h rfl⟩
  obtain ⟨_, _, hheader, hrun⟩ := exec_bind_eq_some hrun
  obtain ⟨two, rfl⟩ := exec_skipMessageHeader_eq_some hheader
  obtain ⟨id, _, hid, hrun⟩ := exec_bind_eq_some hrun
  rw [exec_readU8] at hid
  obtain ⟨-, idAt, rfl⟩ := taken_eq_some hid
  obtain ⟨_, _, hflags, hrun⟩ := exec_bind_eq_some hrun
  rw [exec_readU8] at hflags
  obtain ⟨-, -, rfl⟩ := taken_eq_some hflags
  obtain ⟨_, _, hlength, hrun⟩ := exec_bind_eq_some hrun
  rw [exec_readLength] at hlength
  obtain ⟨-, -, rfl⟩ := taken_eq_some hlength
  rw [exec_ite] at hrun
  split at hrun
  next => cases hrun
  next kind =>
    obtain ⟨_, _, hrequest, hrun⟩ := exec_bind_eq_some hrun
    rw [readBytes, exec_fetch_eq (by decide)] at hrequest
    obtain ⟨-, -, rfl⟩ := taken_eq_some hrequest
    obtain ⟨_, _, hobject, hrun⟩ := exec_bind_eq_some hrun
    obtain ⟨value, hvalue⟩ := exec_readObjectId
      (((((behindHeader buf len).skip 1).skip 1).skip 2).skip 2)
    rw [hvalue] at hobject
    obtain ⟨room, -, rfl⟩ := taken_eq_some hobject
    obtain ⟨hdata, -⟩ := Prod.mk.inj hrun
    obtain rfl := Option.some.inj hdata
    exact ⟨⟨two, room, idAt.symm.trans (not_not.mp kind)⟩, rfl, rfl⟩

theorem parseData_of_holdsData {buf : Nat → UInt8} {len : Nat} (h : HoldsData buf len) :
    ∃ data, parseData buf len = some data := by
  obtain ⟨two, room, kind⟩ := h
  have inside : ∀ k ≤ 8, ((behindHeader buf len).skip k).pos ≤ len := by
    intro k hk
    simp only [behindHeader, Cdr.Reader.skip]
    omega
  have header : exec skipMessageHeader (readerInit buf len) = (some (), behindHeader buf len) :=
    exec_skipMessageHeader_of_le two (by omega)
  have id := (exec_readU8 (behindHeader buf len)).trans (taken_of_le _ (inside 1 (by decide)))
  have flags := (exec_readU8 ((behindHeader buf len).skip 1)).trans
    (taken_of_le _ (inside 2 (by decide)))
  have length := (exec_readLength buf len).trans (taken_of_le _ (inside 4 (by decide)))
  have request := (exec_fetch_eq Nat.zero_lt_two
    ((((behindHeader buf len).skip 1).skip 1).skip 2)).trans (taken_of_le _ (inside 6 (by decide)))
  obtain ⟨value, hvalue⟩ := exec_readObjectId
    (((((behindHeader buf len).skip 1).skip 1).skip 2).skip 2)
  have object := hvalue.trans (taken_of_le _ (inside 8 (by decide)))
  have kind' : ¬ (behindHeader buf len).buf (behindHeader buf len).pos ≠ submsgData :=
    not_not.mpr kind
  rw [parseData, parse, exec_bind_of_some header, exec_bind_of_some id, exec_bind_of_some flags,
    exec_bind_of_some length, exec_ite, if_neg kind']
  dsimp only
  rw [readBytes, exec_bind_of_some request, exec_bind_of_some object]
  exact ⟨_, rfl⟩

/-- The declared length is respected exactly in buffers that hold no DATA submessage and in those
that end with it. -/
theorem respectsLength_iff (buf : Nat → UInt8) (len : Nat) :
    RespectsLength buf len ↔
      (HoldsData buf len → headerLen (buf 0) + 4 + declaredLength buf = len) := by
  constructor
  · rintro ⟨accepted, -⟩ holds
    obtain ⟨data, hdata⟩ := parseData_of_holdsData holds
    obtain ⟨-, four, inside, -, hdeclared⟩ := accepted data hdata
    obtain ⟨-, -, hrest⟩ := holdsData_of_parseData hdata
    obtain ⟨-, room, -⟩ := holds
    omega
  · intro exact
    have sample : ∀ data, parseData buf len = some data → _ := fun data hdata =>
      holdsData_of_parseData hdata
    refine ⟨fun data hdata => ?_, fun _ short => ?_⟩
    · obtain ⟨holds, hstart, hlen⟩ := sample data hdata
      have ends := exact holds
      have room := holds.2.1
      exact ⟨holds, by omega, by omega, hstart, by omega⟩
    · by_contra some
      obtain ⟨data, hdata⟩ := Option.ne_none_iff_exists'.mp some
      have ends := exact (sample data hdata).1
      omega

/-- A message of the agent with a DATA submessage of eight bytes that lost its last two. -/
def cutOff : Bytes :=
  [0x05, 0x01, 0x00, 0x00, 7, 7, 7, 7, 0x09, 0x01, 0x08, 0x00, 0x00, 0x0A, 0x00, 0x16, 0x2A, 0x00]

/-- The submessage that was cut off is accepted. -/
theorem data_cut_off_accepted :
    ¬ RespectsLength (fun i => cutOff.getD i 0) cutOff.length := by
  rintro ⟨-, refused⟩
  obtain ⟨data, accepted⟩ := parseData_of_holdsData
    (show HoldsData (fun i => cutOff.getD i 0) cutOff.length by decide)
  rw [refused (by decide) (by decide)] at accepted
  cases accepted

end Session

end RtosXrce.Xrce
