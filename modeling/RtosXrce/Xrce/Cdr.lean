import Mathlib.Data.List.TakeWhile
import RtosXrce.Library.Bytes
import RtosXrce.Library.Fallible

/-!
# CDR reader and writer

`xrce/src/cdr.c`. A write that fails may have written padding, and a read that fails may have moved
on, so both keep their state also then. Buffers are memory from an address on, of which only the
first `cap` or `len` bytes belong to the caller. A `double` is its bit pattern.
-/

namespace RtosXrce.Xrce.Cdr

open Library

/-- `ensure`; `pos ≤ cap` throughout, so the subtraction does not wrap. -/
def ensure (cap pos n : Nat) : Prop := n ≤ cap - pos

instance (cap pos n : Nat) : Decidable (ensure cap pos n) := inferInstanceAs (Decidable (_ ≤ _))

/-- What a C string holds before its terminator. -/
@[ext] structure CString where
  chars : Bytes
  noNul : 0 ∉ chars
  deriving DecidableEq

/-- The string that starts at `bytes`. -/
def CString.ofBytes (bytes : Bytes) : CString where
  chars := bytes.takeWhile (· ≠ 0)
  noNul h := by simpa using List.mem_takeWhile_imp h

/-- The contents of a field `char[n]` that holds a terminated string. -/
@[ext] structure FixedString (n : Nat) extends CString where
  fits : chars.length < n
  deriving DecidableEq

/-- A sequence: the elements and, as their number, a `uint32_t`. -/
@[ext] structure Sequence (α : Type) where
  elems : List α
  count_lt : elems.length < 2 ^ 32
  deriving DecidableEq

/-- The elements in use of an array with `n` places. -/
@[ext] structure Counted (α : Type) (n : Nat) extends Sequence α where
  fits : elems.length ≤ n
  deriving DecidableEq

/-! ## Writing -/

/-- `xrce_cdr_writer_t`. -/
structure Writer where
  buf : Nat → UInt8
  cap : Nat
  pos : Nat
  alignBase : Nat

abbrev Write := Fallible Writer

/-- `xrce_cdr_writer_init`. -/
def writerInit (buf : Nat → UInt8) (cap : Nat) : Writer := ⟨buf, cap, 0, 0⟩

/-- `memcpy(&buf[off], data, data.length)`. -/
def store (buf : Nat → UInt8) (off : Nat) (data : Bytes) : Nat → UInt8 :=
  fun i => if off ≤ i ∧ i < off + data.length then data.getD (i - off) 0 else buf i

/-- `buf[pos++] = v` for each `v` of `data`. -/
def Writer.put (w : Writer) (data : Bytes) : Writer :=
  { w with buf := store w.buf w.pos data, pos := w.pos + data.length }

/-- The loop of `align_writer`. -/
def padWriter : Nat → Writer → Writer
  | 0, w => w
  | pad + 1, w => if w.pos < w.cap then padWriter pad (w.put [0]) else w

/-- `align_writer`. -/
def alignWriter (n : Nat) (w : Writer) : Writer :=
  let rem := (w.pos - w.alignBase) % n
  if rem ≠ 0 then padWriter (n - rem) w else w

/-- The check and the store that end every write. -/
def emit (data : Bytes) : Write Unit := do
  let w ← get
  if ensure w.cap w.pos data.length then set (w.put data) else failure

/-- The `representation_id` of `CDR_LE` and the unused `representation_options`. -/
def encapsulation : Bytes := [0x00, 0x01, 0x00, 0x00]

/-- `xrce_cdr_write_header`. -/
def writeHeader : Write Unit := do
  emit encapsulation
  modify fun w => { w with alignBase := w.pos }

/-- `xrce_cdr_write_u8`. -/
def writeU8 (v : UInt8) : Write Unit := emit [v]

/-- `xrce_cdr_write_bool`. -/
def writeBool (v : Bool) : Write Unit := writeU8 (if v then 1 else 0)

/-- `xrce_cdr_write_i16`. -/
def writeI16 (v : Int16) : Write Unit := do
  let u := v.toUInt16
  modify (alignWriter 2)
  emit [(u &&& 0xFF).toUInt8, ((u >>> 8) &&& 0xFF).toUInt8]

/-- `xrce_cdr_write_bytes`. -/
def writeBytes (data : Bytes) : Write Unit := emit data

/-- `xrce_cdr_write_u32`. -/
def writeU32 (v : UInt32) : Write Unit := do
  modify (alignWriter 4)
  emit ((List.range 4).map fun i => (v >>> UInt32.ofNat (8 * i)).toUInt8)

/-- `xrce_cdr_write_i32`. -/
def writeI32 (v : Int32) : Write Unit := writeU32 v.toUInt32

/-- `xrce_cdr_write_f64`. -/
def writeF64 (bits : UInt64) : Write Unit := do
  modify (alignWriter 8)
  emit ((List.range 8).map fun i => (bits >>> UInt64.ofNat (8 * i)).toUInt8)

/-- `xrce_cdr_write_string`. -/
def writeString (s : CString) : Write Unit := do
  let slen := s.chars.length + 1
  if slen > UInt32.size - 1 then failure
  writeU32 (UInt32.ofNat slen)
  emit (s.chars ++ [0])

/-- A count, and a loop that writes as many elements. -/
def writeSequence {α : Type} (write : α → Write Unit) (s : Sequence α) : Write Unit := do
  writeU32 (UInt32.ofNat s.elems.length)
  s.elems.forM write

/-- `xrce_cdr_write_seq_i32`. -/
def writeSeqI32 (s : Sequence Int32) : Write Unit := writeSequence writeI32 s

/-! ## Reading -/

/-- `xrce_cdr_reader_t`. -/
structure Reader where
  buf : Nat → UInt8
  len : Nat
  pos : Nat
  alignBase : Nat

abbrev Read := Fallible Reader

/-- `xrce_cdr_reader_init`. -/
def readerInit (buf : Nat → UInt8) (len : Nat) : Reader := ⟨buf, len, 0, 0⟩

def Reader.skip (r : Reader) (n : Nat) : Reader := { r with pos := r.pos + n }

/-- `align_reader`. -/
def alignReader (n : Nat) : Read Unit := do
  let r ← get
  let rem := (r.pos - r.alignBase) % n
  if rem ≠ 0 then
    if ensure r.len r.pos (n - rem) then set (r.skip (n - rem)) else failure

/-- The check and the copy that end every read. -/
def fetch (n : Nat) : Read (Vector UInt8 n) := do
  let r ← get
  if ensure r.len r.pos n then
    set (r.skip n)
    return Vector.ofFn fun i => r.buf (r.pos + i)
  else failure

/-- `xrce_cdr_read_header`. -/
def readHeader : Read Unit := do
  let b ← fetch 4
  modify fun r => { r with alignBase := r.pos }
  if b[0] = 0x00 ∧ b[1] = 0x01 then return else failure

/-- `xrce_cdr_read_u8`. -/
def readU8 : Read UInt8 := do
  let b ← fetch 1
  return b[0]

/-- `xrce_cdr_read_bool`. -/
def readBool : Read Bool := do
  let v ← readU8
  return v ≠ 0

def gatherU16 (b : Vector UInt8 2) : UInt16 := b[0].toUInt16 ||| b[1].toUInt16 <<< 8

/-- `xrce_cdr_read_i16`. -/
def readI16 : Read Int16 := do
  alignReader 2
  let b ← fetch 2
  return (gatherU16 b).toInt16

/-- `xrce_cdr_read_bytes`. -/
def readBytes (len : Nat) : Read (Vector UInt8 len) := fetch len

/-- The loop of `xrce_cdr_read_u32`. -/
def gatherU32 (b : Vector UInt8 4) : UInt32 :=
  (List.range 4).foldl (fun v i => v ||| (b.toList.getD i 0).toUInt32 <<< UInt32.ofNat (8 * i)) 0

/-- `xrce_cdr_read_u32`. -/
def readU32 : Read UInt32 := do
  alignReader 4
  let b ← fetch 4
  return gatherU32 b

/-- `xrce_cdr_read_i32`. -/
def readI32 : Read Int32 := do
  let u ← readU32
  return u.toInt32

/-- The loop of `xrce_cdr_read_f64`. -/
def gatherU64 (b : Vector UInt8 8) : UInt64 :=
  (List.range 8).foldl (fun v i => v ||| (b.toList.getD i 0).toUInt64 <<< UInt64.ofNat (8 * i)) 0

/-- `xrce_cdr_read_f64`. -/
def readF64 : Read UInt64 := do
  alignReader 8
  let b ← fetch 8
  return gatherU64 b

/-- A buffer with a terminator at its end holds a string shorter than itself. -/
theorem CString.length_ofBytes_lt {n : Nat} (out : Vector UInt8 n) (h0 : n ≠ 0)
    (h : out[n - 1] = 0) : (CString.ofBytes out.toList).chars.length < n := by
  have hprefix : (CString.ofBytes out.toList).chars <+: out.toList := List.takeWhile_prefix _
  have hle : (CString.ofBytes out.toList).chars.length ≤ n := by simpa using hprefix.length_le
  refine Nat.lt_of_le_of_ne hle fun heq => ?_
  have hall : (CString.ofBytes out.toList).chars = out.toList :=
    hprefix.eq_of_length (by simp [heq])
  have hlast : (0 : UInt8) ∈ out.toList := by
    rw [Vector.mem_toList_iff, ← h]
    exact Vector.getElem_mem _
  exact (CString.ofBytes out.toList).noNul (by rw [hall]; exact hlast)

/-- `xrce_cdr_read_string`: what `out` holds as a string. -/
def readString (outCap : Nat) : Read (FixedString outCap) := do
  let slen ← readU32
  if h : slen.toNat ≠ 0 ∧ slen.toNat ≤ outCap then
    let out ← fetch slen.toNat
    if hz : out[slen.toNat - 1] = 0 then
      return { toCString := CString.ofBytes out.toList
               fits := Nat.lt_of_lt_of_le (CString.length_ofBytes_lt out h.1 hz) h.2 }
    else failure
  else failure

/-- A loop that reads `n` values in a row. -/
def readMany {α : Type} (read : Read α) : (n : Nat) → Read { l : List α // l.length = n }
  | 0 => return ⟨[], rfl⟩
  | n + 1 => do
    let a ← read
    let l ← readMany read n
    return ⟨a :: l.val, by simp [l.property]⟩

/-- A count that the array has room for, and a loop that reads as many elements. -/
def readSequence {α : Type} (read : Read α) (outCap : Nat) : Read (Counted α outCap) := do
  let count ← readU32
  if h : count.toNat ≤ outCap then
    let l ← readMany read count.toNat
    return { elems := l.val
             count_lt := by rw [l.property]; exact count.toNat_lt
             fits := by rw [l.property]; exact h }
  else failure

/-- `xrce_cdr_read_seq_i32`. -/
def readSeqI32 (outCap : Nat) : Read (Counted Int32 outCap) := readSequence readI32 outCap

end RtosXrce.Xrce.Cdr
