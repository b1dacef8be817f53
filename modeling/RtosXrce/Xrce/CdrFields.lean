import RtosXrce.Xrce.CdrLayout

/-!
# Lists of typed fields

Any sequence of the `xrce_cdr_write` functions, with or without the encapsulation header in front,
against the reference encoding of its fields and against the reading functions.
-/

namespace RtosXrce.Xrce.Cdr

open Library

inductive Field where
  | bool (v : Bool)
  | u8 (v : UInt8)
  | i16 (v : Int16)
  | i32 (v : Int32)
  | u32 (v : UInt32)
  | f64 (bits : UInt64)
  | bytes (data : Bytes)
  | string (s : CString)
  | seqI32 (s : Sequence Int32)
  deriving DecidableEq

def Field.write : Field → Write Unit
  | bool v => writeBool v
  | u8 v => writeU8 v
  | i16 v => writeI16 v
  | i32 v => writeI32 v
  | u32 v => writeU32 v
  | f64 bits => writeF64 bits
  | bytes data => writeBytes data
  | string s => writeString s
  | seqI32 s => writeSeqI32 s

/-- The reference encoding of one field. -/
def Field.format : Field → Format
  | bool v => word 1 (if v then 1 else 0 : UInt8).toBitVec
  | u8 v => word 1 v.toBitVec
  | i16 v => word 2 v.toBitVec
  | i32 v => word 4 v.toBitVec
  | u32 v => word 4 v.toBitVec
  | f64 bits => word 8 bits.toBitVec
  | bytes data => Format.raw data
  | string s => stringFormat s
  | seqI32 s => sequenceFormat (fun v => word 4 v.toBitVec) s

def writeFields (headed : Bool) (fields : List Field) : Write Unit :=
  if headed then do
    writeHeader
    fields.forM Field.write
  else fields.forM Field.write

/-- The reference encoding of a list of fields: offsets count from its start, or from behind the
header. -/
def reference (headed : Bool) (fields : List Field) : Option Bytes :=
  let body := Format.seqAll (fields.map Field.format) 0
  if headed then body.map (encapsulation ++ ·) else body

theorem Field.emits (f : Field) : Emits f.write f.format := by
  cases f with
  | bool v => exact emits_u8 _
  | u8 v => exact emits_u8 v
  | i16 v => exact emits_i16 v
  | i32 v => exact emits_i32 v
  | u32 v => exact emits_u32 v
  | f64 bits => exact emits_f64 bits
  | bytes data => exact emits_emit data
  | string s => exact emits_string s
  | seqI32 s => exact emits_sequence emits_i32 s

theorem writes_fields (headed : Bool) (fields : List Field) :
    Writes (writeFields headed fields) (reference headed fields) := by
  have hemits : Emits (fields.forM Field.write) (Format.seqAll (fields.map Field.format)) :=
    .forM Field.emits fields
  cases headed with
  | false => exact hemits.writes
  | true => exact hemits.writes_header

/-- A list of fields is written if and only if its reference encoding fits the capacity, and then
as that encoding; memory behind the capacity stays as it was in every case. A list has no reference
encoding when the count of one of its strings is no `uint32_t`. -/
theorem writeFields_exact (headed : Bool) (fields : List Field) (buf : Nat → UInt8) (cap : Nat) :
    let (result, w) := (writeFields headed fields).exec (writerInit buf cap)
    (result = some () ↔ ∃ e, reference headed fields = some e ∧ e.length ≤ cap) ∧
      (result = some () → reference headed fields = some w.written) ∧
      ∀ i, cap ≤ i → w.buf i = buf i :=
  (writes_fields headed fields).exact buf cap

/-! ## Reading back -/

/-- A field to be read, with the room its destination has. -/
inductive Kind where
  | bool
  | u8
  | i16
  | i32
  | u32
  | f64
  | bytes (len : Nat)
  | string (outCap : Nat)
  | seqI32 (outCap : Nat)

def Kind.read : Kind → Read Field
  | bool => do return .bool (← readBool)
  | u8 => do return .u8 (← readU8)
  | i16 => do return .i16 (← readI16)
  | i32 => do return .i32 (← readI32)
  | u32 => do return .u32 (← readU32)
  | f64 => do return .f64 (← readF64)
  | bytes len => do return .bytes (← readBytes len).toList
  | string outCap => do return .string (← readString outCap).toCString
  | seqI32 outCap => do return .seqI32 (← readSeqI32 outCap).toSequence

/-- The kind is that of the field, and the destination has room for it. -/
inductive Kind.Accepts : Kind → Field → Prop where
  | bool (v : Bool) : Accepts .bool (.bool v)
  | u8 (v : UInt8) : Accepts .u8 (.u8 v)
  | i16 (v : Int16) : Accepts .i16 (.i16 v)
  | i32 (v : Int32) : Accepts .i32 (.i32 v)
  | u32 (v : UInt32) : Accepts .u32 (.u32 v)
  | f64 (bits : UInt64) : Accepts .f64 (.f64 bits)
  | bytes (data : Bytes) : Accepts (.bytes data.length) (.bytes data)
  | string {outCap : Nat} (s : CString) (h : s.chars.length < outCap) :
      Accepts (.string outCap) (.string s)
  | seqI32 {outCap : Nat} (s : Sequence Int32) (h : s.elems.length ≤ outCap) :
      Accepts (.seqI32 outCap) (.seqI32 s)

def readEach : List Kind → Read (List Field)
  | [] => return []
  | k :: ks => do
    let f ← k.read
    let fs ← readEach ks
    return f :: fs

def readFields (headed : Bool) (kinds : List Kind) : Read (List Field) :=
  if headed then do
    readHeader
    readEach kinds
  else readEach kinds

theorem Kind.Accepts.reads {k : Kind} {f : Field} (h : k.Accepts f) : Reads k.read f.format f := by
  cases h with
  | bool v => exact (reads_bool v).map _
  | u8 v => exact (reads_u8 v).map _
  | i16 v => exact (reads_i16 v).map _
  | i32 v => exact (reads_i32 v).map _
  | u32 v => exact (reads_u32 v).map _
  | f64 bits => exact (reads_f64 bits).map _
  | bytes data => exact (reads_fetch ⟨data.toArray, by simp⟩).map fun v => Field.bytes v.toList
  | string s h => exact (reads_string ⟨s, h⟩).map fun s => Field.string s.toCString
  | seqI32 s h => exact (reads_sequence reads_i32 ⟨s, h⟩).map fun s => Field.seqI32 s.toSequence

theorem reads_each {kinds : List Kind} {fields : List Field}
    (h : List.Forall₂ Kind.Accepts kinds fields) :
    Reads (readEach kinds) (Format.seqAll (fields.map Field.format)) fields := by
  induction h with
  | nil => exact Reads.pure []
  | cons hf _ ih => exact hf.reads.bind (ih.map _)

theorem parses_fields (headed : Bool) {kinds : List Kind} {fields : List Field}
    (h : List.Forall₂ Kind.Accepts kinds fields) :
    Parses (readFields headed kinds) (reference headed fields) fields := by
  cases headed with
  | false => exact (reads_each h).parses
  | true => exact (reads_each h).parses_header

/-- What was written is read back, field by field, up to the last byte written. -/
theorem readFields_writeFields (headed : Bool) {kinds : List Kind} {fields : List Field}
    (accepts : List.Forall₂ Kind.Accepts kinds fields) {buf : Nat → UInt8} {cap : Nat} {w : Writer}
    (written : (writeFields headed fields).exec (writerInit buf cap) = (some (), w)) :
    ∃ r, (readFields headed kinds).exec (readerInit w.buf w.pos) = (some fields, r) ∧
      r.pos = w.pos := by
  have hexact := (writes_fields headed fields).exact buf cap
  rw [written] at hexact
  have hrest : (readerInit w.buf w.pos).rest = w.written ++ [] := by
    rw [rest_readerInit, List.append_nil]
    rfl
  obtain ⟨r, hread, hpos⟩ := (parses_fields headed accepts).takes w.buf w.pos (hexact.2.1 rfl) hrest
  refine ⟨r, hread, ?_⟩
  rw [hpos]
  exact w.length_written

/-- The string shifts what follows it, and the header does not count. -/
theorem readFields_writeFields_mixed :
    let fields : List Field :=
      [.u8 7, .f64 0x3FF8000000000000, .string ⟨[65], by decide⟩, .i16 (-2),
        .seqI32 ⟨[1, -1], by decide⟩]
    let kinds : List Kind := [.u8, .f64, .string 4, .i16, .seqI32 2]
    let (result, w) := (writeFields true fields).exec (writerInit (fun _ => 0xEE) 64)
    result = some () ∧ w.pos = 40 ∧
      ∃ r, (readFields true kinds).exec (readerInit w.buf w.pos) = (some fields, r) ∧
        r.pos = w.pos := by
  intro fields kinds
  have hok : ((writeFields true fields).exec (writerInit (fun _ => 0xEE) 64)).1 = some () := by
    decide +kernel
  refine ⟨hok, by decide +kernel, readFields_writeFields true ?_ (Prod.ext hok rfl)⟩
  exact .cons (.u8 _) (.cons (.f64 _) (.cons (.string _ (by decide)) (.cons (.i16 _)
    (.cons (.seqI32 _ (by decide)) .nil))))

end RtosXrce.Xrce.Cdr
