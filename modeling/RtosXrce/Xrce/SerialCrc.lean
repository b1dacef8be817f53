import RtosXrce.Library.Crc
import RtosXrce.Xrce.SerialStreams

/-!
# Corruption of frames

The CRC of the link is the reflected one with polynomial `x^16 + x^15 + x^2 + 1`. A receiver that
takes the two CRC octets in behind the payload has a zero register exactly when they are right, so
what it makes of a changed frame depends on the changed bits alone.
-/

namespace RtosXrce.Xrce.Serial

open Library Library.Crc

/-- CRC-16/ARC. -/
def arc : Crc 16 := ⟨0xA001, rfl⟩

theorem parity_arc : parity arc.poly = true := by decide

/-! ## The byte loop as a run of the register -/

theorem toBitVec_crc16Shift (c : UInt16) :
    (crc16Shift c).toBitVec = arc.shift c.toBitVec := by
  have low : c &&& 1 ≠ 0 ↔ c.toBitVec.getLsbD 0 = true := by
    rw [Ne, ← UInt16.toBitVec_inj, UInt16.toBitVec_and]
    change ¬ c.toBitVec &&& 1#16 = 0#16 ↔ _
    rw [BitVec.and_one_eq_setWidth_ofBool_getLsbD]
    cases c.toBitVec.getLsbD 0 <;> decide
  unfold crc16Shift Crc.shift
  simp only [low]
  split <;> rfl

theorem toBitVec_iterate (k : Nat) (c : UInt16) :
    (crc16Shift^[k] c).toBitVec = arc.shift^[k] c.toBitVec := by
  induction k generalizing c with
  | zero => rfl
  | succ k ih =>
    rw [Function.iterate_succ_apply, Function.iterate_succ_apply, ih, toBitVec_crc16Shift]

theorem toBitVec_crc16Update (c : UInt16) (b : UInt8) :
    (crc16Update c b).toBitVec = arc.run c.toBitVec (bitsOf 8 b.toBitVec) := by
  have wide : ∀ i, b.toUInt16.toBitVec.getLsbD i = (decide (i < 16) && b.toBitVec.getLsbD i) := by
    intro i
    simp
  have short : ∀ i, 8 ≤ i → b.toUInt16.toBitVec.getLsbD i = false := by
    intro i hi
    rw [wide, BitVec.getLsbD_of_ge _ _ hi, Bool.and_false]
  have same : bitsOf 8 b.toUInt16.toBitVec = bitsOf 8 b.toBitVec := by
    refine List.map_congr_left fun i hi => ?_
    have : i < 16 := by
      have := List.mem_range.mp hi
      omega
    rw [wide, decide_eq_true this, Bool.true_and]
  rw [crc16Update, toBitVec_iterate, UInt16.toBitVec_xor, arc.iterate_shift_eq_run 8 _ short, same]

/-- The bits of octets, the least significant of each first. -/
def octetBits (octets : Bytes) : List Bool := octets.flatMap fun b => bitsOf 8 b.toBitVec

theorem toBitVec_foldl (c : UInt16) (data : Bytes) :
    (data.foldl crc16Update c).toBitVec = arc.run c.toBitVec (octetBits data) := by
  induction data generalizing c with
  | nil => rfl
  | cons b data ih =>
    rw [List.foldl_cons, ih, toBitVec_crc16Update, ← arc.run_append]
    rfl

theorem toBitVec_crc16 (data : Bytes) : (crc16 data).toBitVec = arc.run 0 (octetBits data) :=
  toBitVec_foldl 0 data

/-! ## The syndrome -/

theorem bitsOf_word (lo hi : UInt8) :
    bitsOf 8 lo.toBitVec ++ bitsOf 8 hi.toBitVec = bitsOf 16 (word lo hi).toBitVec := by
  simp [bitsOf, List.range_succ, word]

/-- The register is zero behind the CRC octets exactly when they are the payload's. -/
theorem run_eq_zero_iff (body : Bytes) (lo hi : UInt8) :
    arc.run 0 (octetBits (body ++ [lo, hi])) = 0 ↔ word lo hi = crc16 body := by
  have split : octetBits (body ++ [lo, hi]) =
      octetBits body ++ bitsOf 16 (word lo hi).toBitVec := by
    rw [← bitsOf_word]
    simp [octetBits]
  rw [split, arc.run_append, ← toBitVec_crc16, ← arc.iterate_shift_eq_run 16]
  · constructor
    · intro zero
      have equal := BitVec.xor_eq_zero_iff.mp (arc.eq_zero_of_iterate zero)
      exact (UInt16.toBitVec_inj.mp equal).symm
    · intro same
      rw [same, BitVec.xor_self]
      exact arc.iterate_shift_zero 16
  · intro i hi
    exact BitVec.getLsbD_of_ge _ _ hi

/-- Flip the bits of a pattern. -/
def corrupt (octets pattern : Bytes) : Bytes := List.zipWith (· ^^^ ·) octets pattern

theorem length_octetBits (octets : Bytes) : (octetBits octets).length = 8 * octets.length := by
  induction octets with
  | nil => rfl
  | cons b octets ih =>
    change (bitsOf 8 b.toBitVec ++ octetBits octets).length = _
    rw [List.length_append, ih, List.length_cons]
    simp [bitsOf]
    omega

theorem bitsOf_xor (k : Nat) {n : Nat} (x y : BitVec n) :
    bitsOf k (x ^^^ y) = List.zipWith (· ^^ ·) (bitsOf k x) (bitsOf k y) := by
  simp [bitsOf, List.zipWith_map, List.zipWith_self]

theorem octetBits_corrupt {octets pattern : Bytes} (h : octets.length = pattern.length) :
    octetBits (corrupt octets pattern) =
      List.zipWith (· ^^ ·) (octetBits octets) (octetBits pattern) := by
  induction octets generalizing pattern with
  | nil => rfl
  | cons b octets ih =>
    cases pattern with
    | nil => cases h
    | cons e pattern =>
      change bitsOf 8 (b ^^^ e).toBitVec ++ octetBits (corrupt octets pattern) =
        List.zipWith _ (bitsOf 8 b.toBitVec ++ octetBits octets)
          (bitsOf 8 e.toBitVec ++ octetBits pattern)
      rw [List.zipWith_append (by simp [bitsOf]), ih (Nat.succ.inj h), UInt8.toBitVec_xor,
        bitsOf_xor]

/-- The flipped bits lie within 16 neighbouring ones, or are odd in number. -/
def Detectable (pattern : Bytes) : Prop :=
  true ∈ octetBits pattern ∧
    (Burst 16 (octetBits pattern) ∨ (octetBits pattern).count true % 2 = 1)

/-- A payload and its CRC octets. -/
def frameBody (payload : Bytes) : Bytes :=
  payload ++ [(crc16 payload).toUInt8, (crc16 payload >>> 8).toUInt8]

theorem length_frameBody (payload : Bytes) : (frameBody payload).length = payload.length + 2 := by
  simp [frameBody]

/-- A changed body ends in octets that are not the CRC of what is in front of them. -/
theorem crc_of_corrupt {payload pattern body : Bytes} {lo hi : UInt8}
    (len : pattern.length = (frameBody payload).length) (detectable : Detectable pattern)
    (h : corrupt (frameBody payload) pattern = body ++ [lo, hi]) : word lo hi ≠ crc16 body := by
  obtain ⟨changed, kind⟩ := detectable
  have syndrome : arc.run 0 (octetBits pattern) ≠ 0 := by
    rcases kind with burst | odd
    · exact arc.run_ne_zero_of_burst changed burst
    · exact arc.run_ne_zero_of_odd parity_arc odd
  have sent : arc.run 0 (octetBits (frameBody payload)) = 0 :=
    (run_eq_zero_iff payload _ _).mpr (word_crc _)
  have bits : (octetBits (frameBody payload)).length = (octetBits pattern).length := by
    rw [length_octetBits, length_octetBits, len]
  have sum := arc.run_xor 0 0 bits
  rw [BitVec.xor_self, ← octetBits_corrupt len.symm, h, sent] at sum
  intro right
  have zero := (run_eq_zero_iff body lo hi).mpr right
  exact syndrome (by simpa using (zero.symm.trans sum).symm)

/-- The bytes of a frame whose octets behind the header were changed and stuffed again. -/
def corruptWire (src dst : UInt8) (payload pattern : Bytes) : Bytes :=
  flag :: stuffing.stuff ((frameOctets src dst payload).take headerLen ++
    corrupt ((frameOctets src dst payload).drop headerLen) pattern)

variable {a : UInt8} {cap : Nat}

/-- A frame for a reader whose payload or CRC was changed within 16 neighbouring bits or in an odd
number of bits gives one error, on its last byte, and is never delivered. -/
theorem corruption_detected {r : Reader} (cfg : Config a cap r) (settled : r.haveEscape = false)
    (src : UInt8) {payload : Bytes} (short : payload.length ≤ 65535)
    (fits : payload.length ≤ cap) {pattern : Bytes} (len : pattern.length = payload.length + crcLen)
    (detectable : Detectable pattern) :
    (r.feedAll (corruptWire src a payload pattern)).2 =
      List.replicate ((corruptWire src a payload pattern).length - 1) .inProgress ++ [.error] := by
  let lsb := UInt8.ofNat payload.length
  let msb := UInt8.ofNat (payload.length >>> 8)
  let received := corrupt (frameBody payload) pattern
  have hword : (word lsb msb).toNat = payload.length := toNat_word_ofNat short
  have hlen : pattern.length = (frameBody payload).length := by rw [len, length_frameBody]
  have hreceived : received.length = payload.length + 2 := by
    simp only [received, corrupt, List.length_zipWith, hlen, Nat.min_self, length_frameBody]
  have rejected : judge a cap (src :: a :: lsb :: msb :: received) = .reject := by
    obtain ⟨lo, hi, htail⟩ : ∃ lo hi, received.drop payload.length = [lo, hi] :=
      List.length_eq_two.mp (by rw [List.length_drop]; omega)
    have hsplit : received = received.take payload.length ++ [lo, hi] := by
      rw [← htail, List.take_append_drop]
    have wrong := crc_of_corrupt hlen detectable hsplit
    rw [judge_body (by omega), hword, htail]
    simp only [if_pos wrong]
  have proper : ∀ ys, ys <+: src :: a :: lsb :: msb :: received →
      ys ≠ src :: a :: lsb :: msb :: received → judge a cap ys = .more := by
    intro ys hys hne
    exact judge_proper (by omega) (by omega) hys hne
  have run := receiveAll_last (q := none) (by rintro f ⟨⟩) (List.cons_ne_nil _ _) proper
    (by rw [rejected]; simp)
  rw [rejected] at run
  have wire : corruptWire src a payload pattern =
      flag :: stuffing.stuff (src :: a :: lsb :: msb :: received) := rfl
  rw [wire, feedAll_flag cfg settled, run]
  simp [eventOf]

/-- Sixteen bits over the end of a payload and its CRC. -/
theorem corruption_detected_burst :
    ((Reader.init 2 (List.replicate 4 0) 4).feedAll (corruptWire 1 2 [0x42] [0xF0, 0xFF, 0x0F])).2 =
      List.replicate 7 .inProgress ++ [.error] := by
  have burst : Burst 16 (octetBits [0xF0, 0xFF, 0x0F]) := by
    refine ⟨4, fun j hj => ?_⟩
    have inside : ∀ j < 24, (octetBits [0xF0, 0xFF, 0x0F])[j]? = some true →
        4 ≤ j ∧ j < 4 + 16 := by
      decide
    obtain ⟨hlt, -⟩ := List.getElem?_eq_some_iff.mp hj
    exact inside j hlt hj
  exact corruption_detected (r := Reader.init 2 (List.replicate 4 0) 4) ⟨rfl, rfl, rfl⟩ rfl 1
    (by decide) (by decide) (by decide) ⟨by decide, Or.inl burst⟩

end RtosXrce.Xrce.Serial
