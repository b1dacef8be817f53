import RtosXrce.Xrce.SerialFrames

/-!
# The reader's payload buffer

`payload_buf[pos++]` is the reader's only store, and nothing tests it: that it stays inside the
buffer rests on the test of the length in `XRCE_SERIAL_READ_LEN_MSB` and on the state. `Bounded` is
what one call of `xrce_serial_reader_feed` leaves for the next.
-/

namespace RtosXrce.Xrce.Serial

open Library

namespace Reader

/-- The index at which `xrce_serial_reader_feed` stores to `payload_buf`, and the octet. -/
def stores (r : Reader) (byte : UInt8) : Option (Nat × UInt8) :=
  if !r.haveEscape ∧ byte = flag then none
  else if r.state = .waitFlag then none
  else
    match r.unstuff byte with
    | (_, none) => none
    | (r, some decoded) => if r.state = .readPayload then some (r.pos.toNat, decoded) else none

/-- What one call does: a frame starts, the byte is skipped, an escape is noted, or an octet is
taken. -/
theorem feed_cases (r : Reader) (byte : UInt8) :
    (r.feed byte = ({ r with state := .readSrc, haveEscape := false }, .inProgress) ∧
      r.stores byte = none) ∨
    (r.feed byte = (r, .inProgress) ∧ r.stores byte = none) ∨
    (r.state ≠ .waitFlag ∧ r.feed byte = ({ r with haveEscape := true }, .inProgress) ∧
      r.stores byte = none) ∨
    ∃ decoded, r.feed byte = Reader.take { r with haveEscape := false } decoded ∧
      r.stores byte = if r.state = .readPayload then some (r.pos.toNat, decoded) else none := by
  by_cases start : !r.haveEscape ∧ byte = flag
  · exact Or.inl ⟨by rw [feed, if_pos start], by rw [stores, if_pos start]⟩
  by_cases waiting : r.state = .waitFlag
  · refine Or.inr (Or.inl ⟨?_, ?_⟩)
    · rw [feed, if_neg start, if_pos waiting]
    · rw [stores, if_neg start, if_pos waiting]
  rw [feed, stores, if_neg start, if_neg start, if_neg waiting, if_neg waiting]
  cases escaped : r.haveEscape with
  | true =>
    have octet : r.unstuff byte = ({ r with haveEscape := false }, some (byte ^^^ xor)) := by
      simp [unstuff, escaped]
    rw [octet]
    exact Or.inr (Or.inr (Or.inr ⟨_, rfl, rfl⟩))
  | false =>
    by_cases escape : byte = esc
    · have pending : r.unstuff byte = ({ r with haveEscape := true }, none) := by
        simp [unstuff, escaped, escape]
      rw [pending]
      exact Or.inr (Or.inr (Or.inl ⟨waiting, rfl, rfl⟩))
    · have same : { r with haveEscape := false } = r := by rw [← escaped]
      have octet : r.unstuff byte = (r, some byte) := by simp [unstuff, escaped, escape]
      rw [octet, same]
      exact Or.inr (Or.inr (Or.inr ⟨_, rfl, rfl⟩))

theorem payloadBuf_take (r : Reader) (decoded : UInt8) :
    (r.take decoded).1.payloadBuf =
      if r.state = .readPayload then r.payloadBuf.set r.pos.toNat decoded else r.payloadBuf := by
  cases hs : r.state <;> simp only [take, hs, reduceCtorEq, if_true, if_false]
  case readDst | readLenMsb | readPayload | readCrcMsb => split <;> rfl

/-- The buffer changes by the store and by nothing else. -/
theorem payloadBuf_feed (r : Reader) (byte : UInt8) :
    (r.feed byte).1.payloadBuf =
      match r.stores byte with
      | none => r.payloadBuf
      | some (i, octet) => r.payloadBuf.set i octet := by
  obtain ⟨hfeed, hstores⟩ | ⟨hfeed, hstores⟩ | ⟨-, hfeed, hstores⟩ | ⟨decoded, hfeed, hstores⟩ :=
    r.feed_cases byte
  · rw [hfeed, hstores]
  · rw [hfeed, hstores]
  · rw [hfeed, hstores]
  · rw [hfeed, hstores, payloadBuf_take]
    by_cases payload : r.state = .readPayload
    · rw [if_pos payload, if_pos payload]
    · rw [if_neg payload, if_neg payload]

/-- The length is checked, the position is inside it, and the CRC is that of the octets stored. -/
structure Bounded (r : Reader) : Prop where
  size : r.payloadBuf.length = r.payloadCap
  waiting : r.state = .waitFlag → r.haveEscape = false
  payload : r.state = .readPayload → r.pos < r.len ∧ r.len.toNat ≤ r.payloadCap ∧
    r.crc = crc16 (r.payloadBuf.take r.pos.toNat)
  closing : r.state = .readCrcLsb ∨ r.state = .readCrcMsb → r.pos = r.len ∧
    r.len.toNat ≤ r.payloadCap ∧ r.crc = crc16 (r.payloadBuf.take r.len.toNat)

theorem bounded_init (localAddr : UInt8) (buf : Bytes) :
    Bounded (init localAddr buf buf.length) where
  size := rfl
  waiting _ := rfl
  payload h := by cases h
  closing h := by rcases h with h | h <;> cases h

variable {r : Reader}

/-- The states without a payload ask for nothing. -/
theorem Bounded.of_header (h : r.payloadBuf.length = r.payloadCap)
    (waiting : r.state = .waitFlag → r.haveEscape = false) (payload : r.state ≠ .readPayload)
    (lsb : r.state ≠ .readCrcLsb) (msb : r.state ≠ .readCrcMsb) : Bounded r where
  size := h
  waiting := waiting
  payload hs := absurd hs payload
  closing hs := (hs.elim lsb msb).elim

theorem Bounded.resetToWait (h : r.payloadBuf.length = r.payloadCap) : Bounded r.resetToWait :=
  .of_header h (fun _ => rfl) (State.noConfusion ·) (State.noConfusion ·) (State.noConfusion ·)

/-- The length is complete: an empty payload is followed by the CRC at once. -/
theorem Bounded.take_length (h : Bounded r) (hs : r.state = .readLenMsb) (decoded : UInt8) :
    Bounded (r.take decoded).1 := by
  simp only [Reader.take, hs]
  split
  case isTrue => exact .resetToWait h.size
  case isFalse fits =>
    have hlen : (r.len ||| decoded.toUInt16 <<< 8).toNat ≤ r.payloadCap := Nat.not_lt.mp fits
    by_cases zero : r.len ||| decoded.toUInt16 <<< 8 = 0
    · rw [if_pos zero, zero]
      exact ⟨h.size, by simp, by simp, fun _ => ⟨rfl, Nat.zero_le _, rfl⟩⟩
    · rw [if_neg zero]
      refine ⟨h.size, by simp, fun _ => ⟨UInt16.pos_iff_ne_zero.mpr zero, hlen, rfl⟩, fun hs => ?_⟩
      rcases hs with hs | hs <;> cases hs

/-- An octet is stored below the length, and added to the CRC. -/
theorem Bounded.take_payload (h : Bounded r) (hs : r.state = .readPayload) (decoded : UInt8) :
    Bounded (r.take decoded).1 := by
  obtain ⟨hpos, hlen, hcrc⟩ := h.payload hs
  have hlt : r.pos.toNat < r.len.toNat := hpos
  have hnext : (r.pos + 1).toNat = r.pos.toNat + 1 := by
    have := r.len.toNat_lt
    rw [UInt16.toNat_add]
    change (r.pos.toNat + 1) % 65536 = _
    omega
  have hroom : r.pos.toNat < r.payloadBuf.length := by
    rw [h.size]
    omega
  have stored : (r.payloadBuf.set r.pos.toNat decoded).take (r.pos.toNat + 1) =
      r.payloadBuf.take r.pos.toNat ++ [decoded] := by
    rw [List.take_add_one, List.take_set_of_le (Nat.le_refl _)]
    simp [hroom]
  have hcrc' : crc16Update r.crc decoded =
      crc16 ((r.payloadBuf.set r.pos.toNat decoded).take (r.pos + 1).toNat) := by
    rw [hnext, stored, crc16_append, hcrc]
  have hsize : (r.payloadBuf.set r.pos.toNat decoded).length = r.payloadCap := by
    rw [List.length_set, h.size]
  simp only [Reader.take, hs]
  split
  case isTrue last =>
    refine ⟨hsize, by simp, by simp, fun _ => ⟨last, hlen, ?_⟩⟩
    rw [← last]
    exact hcrc'
  case isFalse more =>
    have hmore : r.pos + 1 < r.len := by
      have hne : (r.pos + 1).toNat ≠ r.len.toNat := fun e => more (UInt16.toNat_inj.mp e)
      change (r.pos + 1).toNat < r.len.toNat
      omega
    refine ⟨hsize, by simp, fun _ => ⟨hmore, hlen, hcrc'⟩, fun hc => ?_⟩
    rcases hc with hc | hc <;> cases hc

theorem Bounded.take (h : Bounded r) (decoded : UInt8) : Bounded (r.take decoded).1 := by
  cases hs : r.state with
  | readLenMsb => exact h.take_length hs decoded
  | readPayload => exact h.take_payload hs decoded
  | waitFlag =>
    simp only [Reader.take, hs]
    exact h
  | readSrc | readLenLsb =>
    simp only [Reader.take, hs]
    exact .of_header h.size (by simp) (by simp) (by simp) (by simp)
  | readDst =>
    simp only [Reader.take, hs]
    split
    · exact .resetToWait h.size
    · exact .of_header h.size (by simp) (by simp) (by simp) (by simp)
  | readCrcLsb =>
    simp only [Reader.take, hs]
    exact ⟨h.size, by simp, by simp, fun _ => h.closing (Or.inl hs)⟩
  | readCrcMsb =>
    simp only [Reader.take, hs]
    split
    · exact .resetToWait h.size
    · exact .resetToWait h.size

theorem Bounded.feed (h : Bounded r) (byte : UInt8) : Bounded (r.feed byte).1 := by
  obtain ⟨hfeed, -⟩ | ⟨hfeed, -⟩ | ⟨reading, hfeed, -⟩ | ⟨decoded, hfeed, -⟩ := r.feed_cases byte
  · rw [hfeed]
    exact .of_header h.size (by simp) (by simp) (by simp) (by simp)
  · rwa [hfeed]
  · rw [hfeed]
    exact ⟨h.size, fun hw => absurd hw reading, h.payload, h.closing⟩
  · have unescaped : Bounded { r with haveEscape := false } :=
      ⟨h.size, fun _ => rfl, h.payload, h.closing⟩
    rw [hfeed]
    exact unescaped.take decoded

theorem Bounded.feedAll (h : Bounded r) (bytes : Bytes) : Bounded (r.feedAll bytes).1 := by
  induction bytes generalizing r with
  | nil => exact h
  | cons byte bytes ih => exact ih (h.feed byte)

theorem Bounded.stores_lt (h : Bounded r) {byte octet : UInt8} {i : Nat}
    (store : r.stores byte = some (i, octet)) : i < r.payloadCap := by
  obtain ⟨-, hnone⟩ | ⟨-, hnone⟩ | ⟨-, -, hnone⟩ | ⟨decoded, -, hstores⟩ := r.feed_cases byte
  · cases hnone.symm.trans store
  · cases hnone.symm.trans store
  · cases hnone.symm.trans store
  · rw [hstores] at store
    split at store
    case isTrue payload =>
      cases store
      obtain ⟨hpos, hlen, -⟩ := h.payload payload
      exact Nat.lt_of_lt_of_le hpos hlen
    case isFalse => cases store

theorem payloadCap_take (r : Reader) (decoded : UInt8) :
    (r.take decoded).1.payloadCap = r.payloadCap := by
  cases hs : r.state <;> simp only [Reader.take, hs]
  case readDst | readLenMsb | readPayload | readCrcMsb => split <;> rfl

theorem payloadCap_feed (r : Reader) (byte : UInt8) :
    (r.feed byte).1.payloadCap = r.payloadCap := by
  obtain ⟨hfeed, -⟩ | ⟨hfeed, -⟩ | ⟨-, hfeed, -⟩ | ⟨decoded, hfeed, -⟩ := r.feed_cases byte
  · rw [hfeed]
  · rw [hfeed]
  · rw [hfeed]
  · rw [hfeed, payloadCap_take]

theorem payloadCap_feedAll (r : Reader) (bytes : Bytes) :
    (r.feedAll bytes).1.payloadCap = r.payloadCap := by
  induction bytes generalizing r with
  | nil => rfl
  | cons byte bytes ih => exact (ih (r.feed byte).1).trans (r.payloadCap_feed byte)

/-- The reader that has been fed `bytes` since `xrce_serial_reader_init`. -/
def after (localAddr : UInt8) (buf bytes : Bytes) : Reader :=
  ((init localAddr buf buf.length).feedAll bytes).1

/-- Position and length are inside a buffer of `c` bytes, the CRC is that of the stored payload, no
escape is pending between frames, and the next call stores below `c` or not at all. -/
structure InBuffer (c : Nat) (r : Reader) : Prop where
  payload : r.state = .readPayload → r.pos < r.len ∧ r.len.toNat ≤ c
  closing : r.state = .readCrcLsb ∨ r.state = .readCrcMsb → r.pos = r.len ∧ r.len.toNat ≤ c ∧
    r.crc = crc16 (r.payloadBuf.take r.len.toNat)
  waiting : r.state = .waitFlag → r.haveEscape = false
  quiet : ∀ byte, r.stores byte = none → (r.feed byte).1.payloadBuf = r.payloadBuf
  inside : ∀ byte i octet, r.stores byte = some (i, octet) →
    i < c ∧ (r.feed byte).1.payloadBuf = r.payloadBuf.set i octet

/-- Whatever a reader has been fed, of whatever capacity. -/
theorem reader_stays_in_buffer (localAddr : UInt8) (buf bytes : Bytes) :
    InBuffer buf.length (after localAddr buf bytes) := by
  have bounded : Bounded (after localAddr buf bytes) := (bounded_init localAddr buf).feedAll bytes
  have cap : (after localAddr buf bytes).payloadCap = buf.length := payloadCap_feedAll _ bytes
  rw [← cap]
  refine ⟨fun hs => ?_, bounded.closing, bounded.waiting, fun byte hnone => ?_,
    fun byte i octet store => ⟨bounded.stores_lt store, ?_⟩⟩
  · obtain ⟨hpos, hlen, -⟩ := bounded.payload hs
    exact ⟨hpos, hlen⟩
  · rw [payloadBuf_feed, hnone]
  · rw [payloadBuf_feed, store]

end Reader

end RtosXrce.Xrce.Serial
