import Mathlib.Data.List.GetD
import RtosXrce.Library.Format
import RtosXrce.Xrce.Cdr

/-!
# What the CDR functions write and accept

`Emits m f`: wherever the writer stands, `m` writes the bytes of the format `f` at that offset if
there is room for all of them, and otherwise fails without touching memory behind the capacity.
`Reads r f a`: wherever the reader stands, `r` takes the bytes of `f` for the value `a`, and fails
when the input ends inside them. Both are closed under sequencing, so a message is settled by its
fields.
-/

namespace RtosXrce.Xrce.Cdr

open Library Library.Fallible

/-! ## Writing -/

structure Writer.Wf (w : Writer) : Prop where
  base_le : w.alignBase ≤ w.pos
  pos_le : w.pos ≤ w.cap

/-- The offset alignment is measured from. -/
def Writer.off (w : Writer) : Nat := w.pos - w.alignBase

def Writer.room (w : Writer) : Nat := w.cap - w.pos

theorem store_append (buf : Nat → UInt8) (off : Nat) (a b : Bytes) :
    store (store buf off a) (off + a.length) b = store buf off (a ++ b) := by
  funext i
  simp only [store, List.length_append]
  by_cases ha : off ≤ i ∧ i < off + a.length
  · have hnot : ¬ (off + a.length ≤ i ∧ i < off + a.length + b.length) := by omega
    rw [if_neg hnot, if_pos ha, if_pos (by omega), List.getD_append _ _ _ _ (by omega)]
  · by_cases hb : off + a.length ≤ i ∧ i < off + a.length + b.length
    · rw [if_pos hb, if_pos (by omega), List.getD_append_right _ _ _ _ (by omega)]
      congr 1
      omega
    · rw [if_neg hb, if_neg ha, if_neg (by omega)]

theorem Writer.put_append (w : Writer) (a b : Bytes) : (w.put a).put b = w.put (a ++ b) := by
  simp only [Writer.put, store_append, List.length_append, Nat.add_assoc]

theorem Writer.put_nil (w : Writer) : w.put [] = w := by
  have hstore : store w.buf w.pos [] = w.buf := by
    funext i
    exact if_neg (by simp only [List.length_nil]; omega)
  simp [Writer.put, hstore]

theorem Writer.Wf.put {w : Writer} (wf : w.Wf) {e : Bytes} (he : e.length ≤ w.room) :
    (w.put e).Wf where
  base_le := by
    have := wf.base_le
    simp only [Writer.put]
    omega
  pos_le := by
    have := wf.pos_le
    simp only [Writer.put, Writer.room] at *
    omega

theorem Writer.Wf.off_put {w : Writer} (wf : w.Wf) (e : Bytes) :
    (w.put e).off = w.off + e.length := by
  have := wf.base_le
  simp only [Writer.off, Writer.put]
  omega

theorem Writer.room_put (w : Writer) (e : Bytes) : (w.put e).room = w.room - e.length := by
  simp only [Writer.room, Writer.put]
  omega

/-- Nothing behind the capacity has changed. -/
structure Untouched (w w' : Writer) : Prop where
  cap : w'.cap = w.cap
  buf : ∀ i, w.cap ≤ i → w'.buf i = w.buf i

theorem Untouched.trans {w w' w'' : Writer} (h : Untouched w w') (h' : Untouched w' w'') :
    Untouched w w'' where
  cap := h'.cap.trans h.cap
  buf i hi := (h'.buf i (h.cap ▸ hi)).trans (h.buf i hi)

theorem Untouched.put {w : Writer} (wf : w.Wf) {e : Bytes} (he : e.length ≤ w.room) :
    Untouched w (w.put e) where
  cap := rfl
  buf i hi := by
    have := wf.pos_le
    simp only [Writer.room] at he
    exact if_neg (by omega)

structure Emits (m : Write Unit) (f : Format) : Prop where
  fits : ∀ {w e}, w.Wf → f w.off = some e → e.length ≤ w.room → m.exec w = (some (), w.put e)
  fails : ∀ {w}, w.Wf → (∀ e, f w.off = some e → w.room < e.length) →
    ∃ w', m.exec w = (none, w') ∧ Untouched w w'

theorem Emits.seq {m n : Write Unit} {f g : Format} (hm : Emits m f) (hn : Emits n g) :
    Emits (do m; n) (f.seq g) where
  fits {w e} wf hfg hroom := by
    obtain ⟨a, b, ha, hb, rfl⟩ := Format.seq_eq_some.mp hfg
    rw [List.length_append] at hroom
    have hfirst := hm.fits wf ha (by omega)
    have hwf : (w.put a).Wf := wf.put (by omega)
    have hsecond := hn.fits hwf (by rwa [wf.off_put]) (by rw [Writer.room_put]; omega)
    rw [exec_bind, hfirst]
    exact hsecond.trans (by rw [Writer.put_append])
  fails {w} wf hnone := by
    rw [exec_bind]
    by_cases ha : ∃ a, f w.off = some a ∧ a.length ≤ w.room
    · obtain ⟨a, ha, hroom⟩ := ha
      have hlater : ∀ b, g (w.put a).off = some b → (w.put a).room < b.length := by
        intro b hb
        rw [wf.off_put] at hb
        have hlong := hnone _ (Format.seq_eq_some.mpr ⟨a, b, ha, hb, rfl⟩)
        rw [List.length_append] at hlong
        rw [Writer.room_put]
        omega
      obtain ⟨w', hexec, huntouched⟩ := hn.fails (wf.put hroom) hlater
      rw [hm.fits wf ha hroom]
      exact ⟨w', hexec, (Untouched.put wf hroom).trans huntouched⟩
    · obtain ⟨w', hexec, huntouched⟩ := hm.fails wf fun e he => by
        by_contra hle
        exact ha ⟨e, he, by omega⟩
      rw [hexec]
      exact ⟨w', rfl, huntouched⟩

theorem Emits.pure : Emits (Pure.pure ()) Format.nil where
  fits {w e} _ he _ := by
    obtain rfl : [] = e := Option.some.inj he
    rw [Writer.put_nil]
    rfl
  fails _ hnone := absurd (hnone [] rfl) (Nat.not_lt_zero _)

theorem Emits.forM {α : Type} {write : α → Write Unit} {f : α → Format}
    (h : ∀ a, Emits (write a) (f a)) (l : List α) :
    Emits (l.forM write) (Format.seqAll (l.map f)) := by
  induction l with
  | nil => exact .pure
  | cons a l ih => exact (h a).seq ih

/-! ## The primitives -/

theorem exec_emit (data : Bytes) (w : Writer) :
    (emit data).exec w = if data.length ≤ w.room then (some (), w.put data) else (none, w) := by
  change exec (if ensure w.cap w.pos data.length then set (w.put data) else failure) w = _
  rw [exec_ite]
  rfl

theorem emits_emit (data : Bytes) : Emits (emit data) (Format.raw data) where
  fits {w e} _ he hroom := by
    obtain rfl : data = e := Option.some.inj he
    rw [exec_emit, if_pos hroom]
  fails {w} _ hnone := by
    have hlong : w.room < data.length := hnone data rfl
    rw [exec_emit, if_neg (by omega)]
    exact ⟨w, rfl, rfl, fun _ _ => rfl⟩

theorem padWriter_eq (pad : Nat) (w : Writer) :
    padWriter pad w = w.put (List.replicate (min pad w.room) 0) := by
  induction pad generalizing w with
  | zero => rw [padWriter, Nat.zero_min, List.replicate_zero, Writer.put_nil]
  | succ pad ih =>
    rw [padWriter]
    split
    case isTrue hlt =>
      have hmin : min (pad + 1) w.room = min pad (w.put [0]).room + 1 := by
        rw [Writer.room_put, List.length_singleton]
        simp only [Writer.room]
        omega
      rw [ih, Writer.put_append, hmin, List.replicate_succ, List.singleton_append]
    case isFalse hge =>
      have hmin : min (pad + 1) w.room = 0 := by
        simp only [Writer.room]
        omega
      rw [hmin, List.replicate_zero, Writer.put_nil]

theorem alignWriter_eq {k : Nat} (hk : 0 < k) (w : Writer) :
    alignWriter k w = w.put (List.replicate (min (Format.padding k w.off) w.room) 0) := by
  have hlt : w.off % k < k := Nat.mod_lt _ hk
  change (if w.off % k ≠ 0 then padWriter (k - w.off % k) w else w) = _
  split
  case isTrue hrem =>
    have hpad : Format.padding k w.off = k - w.off % k := Nat.mod_eq_of_lt (by omega)
    rw [padWriter_eq, hpad]
  case isFalse hrem =>
    have hpad : Format.padding k w.off = 0 := by
      rw [Format.padding, not_not.mp hrem, Nat.sub_zero, Nat.mod_self]
    rw [hpad, Nat.zero_min, List.replicate_zero, Writer.put_nil]

theorem emits_aligned {k : Nat} (hk : 0 < k) {data : Bytes} (hdata : data ≠ []) :
    Emits (do modify (alignWriter k); emit data) (Format.aligned k data) where
  fits {w e} wf he hroom := by
    obtain rfl := Option.some.inj he
    rw [List.length_append, List.length_replicate] at hroom
    have hmin : min (Format.padding k w.off) w.room = Format.padding k w.off := by omega
    rw [exec_modify, alignWriter_eq hk, hmin, exec_emit, if_pos, Writer.put_append]
    rw [Writer.room_put, List.length_replicate]
    omega
  fails {w} wf hnone := by
    have hlong := hnone _ rfl
    have hpos : 0 < data.length := List.length_pos_iff.mpr hdata
    rw [List.length_append, List.length_replicate] at hlong
    rw [exec_modify, alignWriter_eq hk, exec_emit, if_neg]
    · refine ⟨_, rfl, Untouched.put wf ?_⟩
      rw [List.length_replicate]
      exact Nat.min_le_right _ _
    · rw [Writer.room_put, List.length_replicate]
      omega

/-- A little-endian word at a multiple of its size. -/
def word (k : Nat) (w : BitVec (8 * k)) : Format := Format.aligned k (littleEndian k w)

theorem emits_word {k : Nat} (hk : 0 < k) (w : BitVec (8 * k)) :
    Emits (do modify (alignWriter k); emit (littleEndian k w)) (word k w) :=
  emits_aligned hk (by
    rw [← List.length_pos_iff, length_littleEndian]
    exact hk)

theorem word_one (v : UInt8) : word 1 v.toBitVec = Format.raw [v] := by
  have hbyte : littleEndian 1 v.toBitVec = [v] := by simp [littleEndian]
  funext off
  simp [word, Format.aligned, Format.raw, Format.padding, Nat.mod_one, hbyte]

theorem emits_u8 (v : UInt8) : Emits (writeU8 v) (word 1 v.toBitVec) := by
  rw [word_one]
  exact emits_emit [v]

theorem emits_i16 (v : Int16) : Emits (writeI16 v) (word 2 v.toBitVec) := by
  have hbytes : [(v.toUInt16 &&& 0xFF).toUInt8, ((v.toUInt16 >>> 8) &&& 0xFF).toUInt8] =
      littleEndian 2 v.toBitVec := by
    have hlow : v.toBitVec.setWidth 8 = v.toBitVec.extractLsb' 0 8 := setWidth_shift v.toBitVec 0
    have hmask (b : BitVec 8) : b &&& 255#8 = b := BitVec.and_allOnes
    simp [littleEndian, List.ofFn_succ, ← UInt8.toBitVec_inj, hmask, setWidth_shift, hlow]
  rw [writeI16, hbytes]
  exact emits_word (by decide) _

theorem emits_u32 (v : UInt32) : Emits (writeU32 v) (word 4 v.toBitVec) := by
  have hlow : v.toBitVec.setWidth 8 = v.toBitVec.extractLsb' 0 8 := setWidth_shift v.toBitVec 0
  have hbytes : ((List.range 4).map fun i => (v >>> UInt32.ofNat (8 * i)).toUInt8) =
      littleEndian 4 v.toBitVec := by
    simp [littleEndian, List.ofFn_succ, List.range_succ, ← UInt8.toBitVec_inj, setWidth_shift, hlow]
  rw [writeU32, hbytes]
  exact emits_word (by decide) _

theorem emits_i32 (v : Int32) : Emits (writeI32 v) (word 4 v.toBitVec) := emits_u32 v.toUInt32

theorem emits_f64 (bits : UInt64) : Emits (writeF64 bits) (word 8 bits.toBitVec) := by
  have hlow : bits.toBitVec.setWidth 8 = bits.toBitVec.extractLsb' 0 8 :=
    setWidth_shift bits.toBitVec 0
  have hbytes : ((List.range 8).map fun i => (bits >>> UInt64.ofNat (8 * i)).toUInt8) =
      littleEndian 8 bits.toBitVec := by
    simp [littleEndian, List.ofFn_succ, List.range_succ, ← UInt8.toBitVec_inj, setWidth_shift, hlow]
  rw [writeF64, hbytes]
  exact emits_word (by decide) _

def countFormat (n : Nat) : Format := word 4 (BitVec.ofNat 32 n)

/-- The count includes the terminator; a string whose count is no `uint32_t` has no encoding. -/
def stringFormat (s : CString) : Format :=
  if s.chars.length + 1 < 2 ^ 32 then
    (countFormat (s.chars.length + 1)).seq (Format.raw (s.chars ++ [0]))
  else fun _ => none

def sequenceFormat {α : Type} (f : α → Format) (s : Sequence α) : Format :=
  (countFormat s.elems.length).seq (Format.seqAll (s.elems.map f))

theorem emits_count (n : Nat) : Emits (writeU32 (UInt32.ofNat n)) (countFormat n) :=
  emits_u32 (UInt32.ofNat n)

theorem emits_string (s : CString) : Emits (writeString s) (stringFormat s) := by
  have hsize : UInt32.size = 2 ^ 32 := rfl
  unfold writeString stringFormat
  split
  case isTrue hshort =>
    have hlen : ¬ s.chars.length + 1 > UInt32.size - 1 := by omega
    simp only [if_neg hlen]
    exact (emits_count _).seq (emits_emit _)
  case isFalse hlong =>
    have hlen : s.chars.length + 1 > UInt32.size - 1 := by omega
    simp only [if_pos hlen]
    exact ⟨fun _ he => (nomatch he), fun {w} _ _ => ⟨w, rfl, rfl, fun _ _ => rfl⟩⟩

theorem emits_sequence {α : Type} {write : α → Write Unit} {f : α → Format}
    (h : ∀ a, Emits (write a) (f a)) (s : Sequence α) :
    Emits (writeSequence write s) (sequenceFormat f s) :=
  (emits_count s.elems.length).seq (.forM h s.elems)

theorem spans_word (k : Nat) (w : BitVec (8 * k)) (off : Nat) :
    (word k w).Spans off (off + Format.padding k off + k) := by
  have h := Format.spans_aligned k (littleEndian k w) off
  rwa [length_littleEndian] at h

theorem spans_string {s : CString} (h : s.chars.length + 1 < 2 ^ 32) (off : Nat) :
    (stringFormat s).Spans off (off + Format.padding 4 off + 4 + (s.chars.length + 1)) := by
  have hraw := Format.spans_raw (s.chars ++ [0]) (off + Format.padding 4 off + 4)
  rw [List.length_append, List.length_singleton] at hraw
  rw [stringFormat, if_pos h]
  exact (spans_word 4 _ off).seq hraw

/-! ## From a fresh writer -/

/-- The first `n` bytes of a buffer. -/
def bytesOf (buf : Nat → UInt8) (n : Nat) : Bytes := (List.range n).map buf

@[simp] theorem length_bytesOf (buf : Nat → UInt8) (n : Nat) : (bytesOf buf n).length = n := by
  simp [bytesOf]

@[simp] theorem getElem_bytesOf (buf : Nat → UInt8) {n i : Nat} (hi : i < (bytesOf buf n).length) :
    (bytesOf buf n)[i] = buf i := by
  simp [bytesOf]

/-- The bytes written so far. -/
def Writer.written (w : Writer) : Bytes := bytesOf w.buf w.pos

theorem Writer.length_written (w : Writer) : w.written.length = w.pos := length_bytesOf _ _

/-- From a fresh writer, `m` writes the bytes `ref` if there are such and they fit. -/
structure Writes (m : Write Unit) (ref : Option Bytes) : Prop where
  fits : ∀ (buf cap) {e}, ref = some e → e.length ≤ cap →
    ∃ w, m.exec (writerInit buf cap) = (some (), w) ∧ w.written = e ∧
      Untouched (writerInit buf cap) w
  fails : ∀ buf cap, (∀ e, ref = some e → cap < e.length) →
    ∃ w, m.exec (writerInit buf cap) = (none, w) ∧ Untouched (writerInit buf cap) w

theorem wf_writerInit (buf : Nat → UInt8) (cap : Nat) : (writerInit buf cap).Wf :=
  ⟨Nat.le_refl 0, Nat.zero_le cap⟩

section PutInit

variable (buf : Nat → UInt8) {cap : Nat} {e : Bytes}

theorem wf_put_writerInit (he : e.length ≤ cap) : ((writerInit buf cap).put e).Wf :=
  (wf_writerInit buf cap).put he

theorem off_put_writerInit : ((writerInit buf cap).put e).off = e.length :=
  Nat.zero_add e.length

theorem room_put_writerInit : ((writerInit buf cap).put e).room = cap - e.length :=
  Writer.room_put (writerInit buf cap) e

end PutInit

theorem bytesOf_store (buf : Nat → UInt8) (e : Bytes) : bytesOf (store buf 0 e) e.length = e := by
  apply List.ext_getElem
  · simp
  · intro i _ hi
    simp [store, hi]

theorem written_put (buf : Nat → UInt8) (cap : Nat) (e : Bytes) :
    ((writerInit buf cap).put e).written = e := by
  simp only [Writer.written, Writer.put, writerInit, Nat.zero_add, bytesOf_store]

theorem Emits.writes {m : Write Unit} {f : Format} (hm : Emits m f) : Writes m (f 0) where
  fits buf cap {e} he hcap :=
    ⟨_, hm.fits (wf_writerInit buf cap) he hcap, written_put buf cap e,
      Untouched.put (wf_writerInit buf cap) hcap⟩
  fails buf cap hnone := hm.fails (wf_writerInit buf cap) hnone

/-- The writer behind the encapsulation header, where offsets count from again. -/
def headed (buf : Nat → UInt8) (cap : Nat) : Writer :=
  { (writerInit buf cap).put encapsulation with alignBase := 4 }

theorem untouched_headed {buf : Nat → UInt8} {cap : Nat} (hcap : 4 ≤ cap) :
    Untouched (writerInit buf cap) (headed buf cap) := by
  have hput : Untouched (writerInit buf cap) ((writerInit buf cap).put encapsulation) :=
    .put (wf_writerInit buf cap) hcap
  exact ⟨rfl, hput.buf⟩

theorem exec_writeHeader (buf : Nat → UInt8) (cap : Nat) :
    writeHeader.exec (writerInit buf cap) =
      if 4 ≤ cap then (some (), headed buf cap) else (none, writerInit buf cap) := by
  have hemit := exec_emit encapsulation (writerInit buf cap)
  rw [writeHeader, exec_bind, hemit]
  by_cases hcap : 4 ≤ cap
  · have hroom : encapsulation.length ≤ (writerInit buf cap).room := hcap
    rw [if_pos hroom, if_pos hcap]
    rfl
  · have hroom : ¬ encapsulation.length ≤ (writerInit buf cap).room := hcap
    rw [if_neg hroom, if_neg hcap]

theorem Emits.writes_header {m : Write Unit} {f : Format} (hm : Emits m f) :
    Writes (do writeHeader; m) ((f 0).map (encapsulation ++ ·)) where
  fits buf cap {e} he hcap := by
    obtain ⟨body, hbody, rfl⟩ := Option.map_eq_some_iff.mp he
    rw [List.length_append] at hcap
    have hfour : 4 ≤ cap := (Nat.le_add_right 4 _).trans hcap
    have hroom : body.length ≤ (headed buf cap).room := Nat.le_sub_of_add_le' hcap
    have wf : (headed buf cap).Wf := ⟨Nat.le_refl 4, hfour⟩
    have hwritten : ((headed buf cap).put body).written = encapsulation ++ body := by
      rw [← written_put buf cap (encapsulation ++ body), ← Writer.put_append]
      rfl
    rw [exec_bind, exec_writeHeader, if_pos hfour]
    exact ⟨_, hm.fits wf hbody hroom, hwritten, (untouched_headed hfour).trans (.put wf hroom)⟩
  fails buf cap hnone := by
    rw [exec_bind, exec_writeHeader]
    by_cases hcap : 4 ≤ cap
    · have wf : (headed buf cap).Wf := ⟨Nat.le_refl 4, hcap⟩
      obtain ⟨w, hexec, huntouched⟩ := hm.fails wf fun e he => by
        have hbody : f 0 = some e := he
        have hlong := hnone (encapsulation ++ e) (by rw [hbody]; rfl)
        rw [List.length_append] at hlong
        exact Nat.sub_lt_left_of_lt_add hcap hlong
      rw [if_pos hcap]
      exact ⟨w, hexec, (untouched_headed hcap).trans huntouched⟩
    · rw [if_neg hcap]
      exact ⟨_, rfl, rfl, fun _ _ => rfl⟩

/-- A write from a fresh writer succeeds if and only if its bytes fit, and touches nothing behind
the capacity. -/
theorem Writes.exact {m : Write Unit} {ref : Option Bytes} (h : Writes m ref) (buf : Nat → UInt8)
    (cap : Nat) :
    let (result, w) := m.exec (writerInit buf cap)
    (result = some () ↔ ∃ e, ref = some e ∧ e.length ≤ cap) ∧
      (result = some () → ref = some w.written) ∧ ∀ i, cap ≤ i → w.buf i = buf i := by
  by_cases hfits : ∃ e, ref = some e ∧ e.length ≤ cap
  · obtain ⟨e, href, hle⟩ := hfits
    obtain ⟨w, hexec, hwritten, huntouched⟩ := h.fits buf cap href hle
    rw [hexec]
    exact ⟨⟨fun _ => ⟨e, href, hle⟩, fun _ => rfl⟩, fun _ => by rw [href, hwritten], huntouched.buf⟩
  · obtain ⟨w, hexec, huntouched⟩ := h.fails buf cap fun e he => by
      by_contra hle
      exact hfits ⟨e, he, by omega⟩
    rw [hexec]
    exact ⟨⟨fun h => (nomatch h), fun h => absurd h hfits⟩, fun h => (nomatch h), huntouched.buf⟩

/-! ## Reading -/

structure Reader.Wf (r : Reader) : Prop where
  base_le : r.alignBase ≤ r.pos
  pos_le : r.pos ≤ r.len

def Reader.off (r : Reader) : Nat := r.pos - r.alignBase

/-- The input still to be read. -/
def Reader.rest (r : Reader) : Bytes := bytesOf (fun i => r.buf (r.pos + i)) (r.len - r.pos)

theorem Reader.length_rest (r : Reader) : r.rest.length = r.len - r.pos := by
  simp [Reader.rest]

theorem Reader.getElem_rest (r : Reader) {i : Nat} (hi : i < r.rest.length) :
    r.rest[i] = r.buf (r.pos + i) := by
  simp [Reader.rest]

theorem Reader.Wf.skip {r : Reader} (wf : r.Wf) {n : Nat} (hn : n ≤ r.rest.length) :
    (r.skip n).Wf where
  base_le := wf.base_le.trans (Nat.le_add_right _ _)
  pos_le := by
    have := wf.pos_le
    rw [r.length_rest] at hn
    simp only [Reader.skip]
    omega

theorem Reader.Wf.off_skip {r : Reader} (wf : r.Wf) (n : Nat) : (r.skip n).off = r.off + n := by
  have := wf.base_le
  simp only [Reader.off, Reader.skip]
  omega

theorem Reader.rest_skip (r : Reader) (n : Nat) : (r.skip n).rest = r.rest.drop n := by
  apply List.ext_getElem
  · simp only [Reader.length_rest, List.length_drop, Reader.skip]
    omega
  · intro i _ _
    rw [List.getElem_drop, Reader.getElem_rest, Reader.getElem_rest]
    simp only [Reader.skip, Nat.add_assoc]

structure Reads {α : Type} (read : Read α) (f : Format) (a : α) : Prop where
  takes : ∀ {r e t}, r.Wf → f r.off = some e → r.rest = e ++ t →
    read.exec r = (some a, r.skip e.length)
  truncated : ∀ {r e}, r.Wf → f r.off = some e → r.rest <+: e → r.rest ≠ e →
    ∃ r', read.exec r = (none, r')

theorem Reads.bind {α β : Type} {read : Read α} {k : α → Read β} {f g : Format} {a : α} {b : β}
    (hread : Reads read f a) (hk : Reads (k a) g b) : Reads (read >>= k) (f.seq g) b where
  takes {r e t} wf hfg hrest := by
    obtain ⟨ea, eb, ha, hb, rfl⟩ := Format.seq_eq_some.mp hfg
    rw [List.append_assoc] at hrest
    have hle : ea.length ≤ r.rest.length := by
      rw [hrest, List.length_append]
      omega
    have hrest' : (r.skip ea.length).rest = eb ++ t := by
      rw [r.rest_skip, hrest, List.drop_left]
    have hlater := hk.takes (wf.skip hle) (by rwa [wf.off_skip]) hrest'
    rw [exec_bind_of_some (hread.takes wf ha hrest), hlater, List.length_append]
    simp only [Reader.skip, Nat.add_assoc]
  truncated {r e} wf hfg hpre hne := by
    obtain ⟨ea, eb, ha, hb, rfl⟩ := Format.seq_eq_some.mp hfg
    by_cases hlong : ea.length ≤ r.rest.length
    · -- the input ends inside the second part
      obtain ⟨t, ht⟩ := List.prefix_of_prefix_length_le (List.prefix_append ea eb) hpre hlong
      rw [← ht, List.prefix_append_right_inj] at hpre
      have hrest' : (r.skip ea.length).rest = t := by
        rw [r.rest_skip, ← ht, List.drop_left]
      rw [exec_bind_of_some (hread.takes wf ha ht.symm)]
      exact hk.truncated (wf.skip hlong) (by rwa [wf.off_skip]) (by rwa [hrest'])
        (by rw [hrest']; rintro rfl; exact hne ht.symm)
    · -- the input ends inside the first part
      have hshort : r.rest <+: ea :=
        List.prefix_of_prefix_length_le hpre (List.prefix_append ea eb) (by omega)
      obtain ⟨r', hnone⟩ := hread.truncated wf ha hshort (by rintro heq; rw [heq] at hlong; omega)
      exact ⟨r', exec_bind_of_none hnone⟩

theorem Reads.pure {α : Type} (a : α) : Reads (Pure.pure a) Format.nil a where
  takes {r e t} _ he _ := by
    obtain rfl : [] = e := Option.some.inj he
    rfl
  truncated {r e} _ he hpre hne := by
    obtain rfl : [] = e := Option.some.inj he
    exact absurd (List.prefix_nil.mp hpre) hne

theorem Reads.map {α β : Type} {read : Read α} {f : Format} {a : α} (h : Reads read f a)
    (g : α → β) : Reads (do let a ← read; return g a) f (g a) := by
  simpa only [Format.seq_nil] using h.bind (k := fun a => Pure.pure (g a)) (Reads.pure (g a))

/-! ## The primitives, read -/

theorem exec_fetch (n : Nat) (r : Reader) :
    (fetch n).exec r = if n ≤ r.rest.length then
      (some (Vector.ofFn fun i => r.buf (r.pos + i)), r.skip n) else (none, r) := by
  rw [r.length_rest]
  change exec (if ensure r.len r.pos n then _ else _ : Read (Vector UInt8 n)) r = _
  rw [exec_ite]
  rfl

theorem reads_fetch {n : Nat} (v : Vector UInt8 n) : Reads (fetch n) (Format.raw v.toList) v where
  takes {r e t} wf he hrest := by
    obtain rfl : v.toList = e := Option.some.inj he
    have hlen : n ≤ r.rest.length := by
      rw [hrest, List.length_append, Vector.length_toList]
      omega
    have hbytes : (Vector.ofFn fun i : Fin n => r.buf (r.pos + i)) = v := by
      apply Vector.ext
      intro i hi
      rw [Vector.getElem_ofFn, ← r.getElem_rest (by omega)]
      simp only [hrest]
      rw [List.getElem_append_left (by simpa using hi), Vector.getElem_toList]
    rw [exec_fetch, if_pos hlen, Vector.length_toList, hbytes]
  truncated {r e} wf he hpre hne := by
    obtain rfl : v.toList = e := Option.some.inj he
    have hlt : r.rest.length < v.toList.length :=
      lt_of_le_of_ne hpre.length_le fun h => hne (hpre.eq_of_length h)
    rw [Vector.length_toList] at hlt
    exact ⟨r, by rw [exec_fetch, if_neg (Nat.not_le.mpr hlt)]⟩

def padFormat (k : Nat) : Format := fun off => some (List.replicate (Format.padding k off) 0)

theorem exec_alignReader {k : Nat} (hk : 0 < k) (r : Reader) :
    (alignReader k).exec r = if Format.padding k r.off ≤ r.rest.length then
      (some (), r.skip (Format.padding k r.off)) else (none, r) := by
  have hlt : r.off % k < k := Nat.mod_lt _ hk
  change exec (if r.off % k ≠ 0 then
      if ensure r.len r.pos (k - r.off % k) then set (r.skip (k - r.off % k)) else failure
    else Pure.pure () : Read Unit) r = _
  rw [exec_ite, exec_ite]
  by_cases hrem : r.off % k = 0
  · have hpad : Format.padding k r.off = 0 := by
      rw [Format.padding, hrem, Nat.sub_zero, Nat.mod_self]
    rw [if_neg (not_not.mpr hrem), hpad, if_pos (Nat.zero_le _)]
    rfl
  · have hpad : Format.padding k r.off = k - r.off % k := Nat.mod_eq_of_lt (by omega)
    rw [if_pos hrem, hpad, r.length_rest]
    rfl

theorem reads_align {k : Nat} (hk : 0 < k) : Reads (alignReader k) (padFormat k) () where
  takes {r e t} _ he hrest := by
    obtain rfl := Option.some.inj he
    have hle : Format.padding k r.off ≤ r.rest.length := by
      rw [hrest, List.length_append, List.length_replicate]
      omega
    rw [exec_alignReader hk, if_pos hle, List.length_replicate]
  truncated {r e} _ he hpre hne := by
    obtain rfl := Option.some.inj he
    have hlt := lt_of_le_of_ne hpre.length_le fun h => hne (hpre.eq_of_length h)
    rw [List.length_replicate] at hlt
    exact ⟨r, by rw [exec_alignReader hk, if_neg (Nat.not_le.mpr hlt)]⟩

/-- The bytes of a word as the buffer holds them. -/
def wordBuf (k : Nat) (w : BitVec (8 * k)) : Vector UInt8 k :=
  ⟨(littleEndian k w).toArray, by simp⟩

theorem toList_wordBuf (k : Nat) (w : BitVec (8 * k)) :
    (wordBuf k w).toList = littleEndian k w := by
  simp [wordBuf]

theorem reads_word {α : Type} {k : Nat} (hk : 0 < k) (w : BitVec (8 * k))
    (g : Vector UInt8 k → α) :
    Reads (do alignReader k; let b ← fetch k; return g b) (word k w) (g (wordBuf k w)) := by
  have hfetch := (reads_fetch (wordBuf k w)).map g
  rw [toList_wordBuf] at hfetch
  exact Reads.bind (k := fun _ => fetch k >>= fun b => Pure.pure (g b)) (reads_align hk) hfetch

theorem reads_u8 (v : UInt8) : Reads readU8 (word 1 v.toBitVec) v := by
  rw [word_one]
  exact (reads_fetch #v[v]).map fun b => b[0]

theorem reads_bool (v : Bool) :
    Reads readBool (word 1 (if v then 1 else 0 : UInt8).toBitVec) v := by
  have hread := (reads_u8 (if v then 1 else 0)).map fun v => decide (v ≠ 0)
  cases v <;> exact hread

theorem gatherU16_wordBuf (w : BitVec 16) : (gatherU16 (wordBuf 2 w)).toBitVec = w := by
  have hgather : (gatherU16 (wordBuf 2 w)).toBitVec = gather 16 2 (wordBuf 2 w).toList := by
    simp [gatherU16, gather, List.range_succ]
  rw [hgather, toList_wordBuf]
  exact gather_littleEndian 2 w

theorem gatherU32_wordBuf (w : BitVec 32) : (gatherU32 (wordBuf 4 w)).toBitVec = w := by
  have hgather : (gatherU32 (wordBuf 4 w)).toBitVec = gather 32 4 (wordBuf 4 w).toList := by
    simp [gatherU32, gather, List.range_succ]
  rw [hgather, toList_wordBuf]
  exact gather_littleEndian 4 w

theorem gatherU64_wordBuf (w : BitVec 64) : (gatherU64 (wordBuf 8 w)).toBitVec = w := by
  have hgather : (gatherU64 (wordBuf 8 w)).toBitVec = gather 64 8 (wordBuf 8 w).toList := by
    simp [gatherU64, gather, List.range_succ]
  rw [hgather, toList_wordBuf]
  exact gather_littleEndian 8 w

theorem reads_i16 (v : Int16) : Reads readI16 (word 2 v.toBitVec) v := by
  have hvalue : (gatherU16 (wordBuf 2 v.toBitVec)).toInt16 = v :=
    Int16.toBitVec_inj.mp (gatherU16_wordBuf v.toBitVec)
  have hread := reads_word (k := 2) (by decide) v.toBitVec fun b => (gatherU16 b).toInt16
  rwa [hvalue] at hread

theorem reads_u32 (v : UInt32) : Reads readU32 (word 4 v.toBitVec) v := by
  have hvalue : gatherU32 (wordBuf 4 v.toBitVec) = v :=
    UInt32.toBitVec_inj.mp (gatherU32_wordBuf v.toBitVec)
  have hread := reads_word (k := 4) (by decide) v.toBitVec gatherU32
  rwa [hvalue] at hread

theorem reads_i32 (v : Int32) : Reads readI32 (word 4 v.toBitVec) v :=
  (reads_u32 v.toUInt32).map fun u => u.toInt32

theorem reads_f64 (bits : UInt64) : Reads readF64 (word 8 bits.toBitVec) bits := by
  have hvalue : gatherU64 (wordBuf 8 bits.toBitVec) = bits :=
    UInt64.toBitVec_inj.mp (gatherU64_wordBuf bits.toBitVec)
  have hread := reads_word (k := 8) (by decide) bits.toBitVec gatherU64
  rwa [hvalue] at hread

theorem reads_count (n : Nat) : Reads readU32 (countFormat n) (UInt32.ofNat n) :=
  reads_u32 (UInt32.ofNat n)

theorem ofBytes_terminated (s : CString) : CString.ofBytes (s.chars ++ [0]) = s := by
  have hchars : ∀ c ∈ s.chars, decide (c ≠ 0) = true := by
    intro c hc
    simp only [ne_eq, decide_eq_true_eq]
    rintro rfl
    exact s.noNul hc
  ext1
  change (s.chars ++ [0]).takeWhile (fun c => decide (c ≠ 0)) = s.chars
  rw [List.takeWhile_append_of_pos hchars]
  exact List.append_nil _

/-- A terminated string as a buffer of `n` bytes holds it. -/
def stringBuf (s : CString) {n : Nat} (hn : s.chars.length + 1 = n) : Vector UInt8 n :=
  ⟨(s.chars ++ [0]).toArray, by simpa using hn⟩

theorem toList_stringBuf (s : CString) {n : Nat} (hn : s.chars.length + 1 = n) :
    (stringBuf s hn).toList = s.chars ++ [0] := by
  simp [stringBuf]

theorem stringBuf_last (s : CString) {n : Nat} (hn : s.chars.length + 1 = n) (h : n - 1 < n) :
    (stringBuf s hn)[n - 1] = 0 := by
  subst hn
  simp [stringBuf]

theorem reads_string {n : Nat} (s : FixedString n) :
    Reads (readString n) (stringFormat s.toCString) s := by
  unfold stringFormat
  split
  case isFalse hlong => exact ⟨fun _ he => (nomatch he), fun _ he => (nomatch he)⟩
  case isTrue hshort =>
    have hcount : (UInt32.ofNat (s.chars.length + 1)).toNat = s.chars.length + 1 :=
      UInt32.toNat_ofNat_of_lt hshort
    have hfits := s.fits
    refine (reads_count _).bind ?_
    have hlen : (UInt32.ofNat (s.chars.length + 1)).toNat ≠ 0 ∧
        (UInt32.ofNat (s.chars.length + 1)).toNat ≤ n := by omega
    have hfetch := reads_fetch (stringBuf s.toCString hcount.symm)
    rw [toList_stringBuf] at hfetch
    rw [dif_pos hlen, ← Format.seq_nil (Format.raw _)]
    refine hfetch.bind ?_
    rw [dif_pos (stringBuf_last s.toCString hcount.symm _)]
    have hvalue : CString.ofBytes (stringBuf s.toCString hcount.symm).toList = s.toCString := by
      rw [toList_stringBuf, ofBytes_terminated]
    simp only [hvalue]
    exact Reads.pure s

theorem reads_many {α : Type} {read : Read α} {f : α → Format} (h : ∀ a, Reads read (f a) a)
    (l : List α) {n : Nat} (hn : l.length = n) :
    Reads (readMany read n) (Format.seqAll (l.map f)) ⟨l, hn⟩ := by
  induction l generalizing n with
  | nil =>
    subst hn
    exact Reads.pure _
  | cons a l ih =>
    subst hn
    exact (h a).bind ((ih rfl).map _)

theorem reads_sequence {α : Type} {read : Read α} {f : α → Format} (h : ∀ a, Reads read (f a) a)
    {n : Nat} (s : Counted α n) :
    Reads (readSequence read n) (sequenceFormat f s.toSequence) s := by
  have hcount : (UInt32.ofNat s.elems.length).toNat = s.elems.length :=
    UInt32.toNat_ofNat_of_lt s.count_lt
  have hfits : (UInt32.ofNat s.elems.length).toNat ≤ n := by
    rw [hcount]
    exact s.fits
  refine (reads_count _).bind ?_
  rw [dif_pos hfits]
  exact (reads_many h s.elems hcount.symm).map _

/-! ## From a fresh reader -/

/-- From a fresh reader, `read` takes the bytes `ref` for `a`, whatever follows them, and fails on
every proper prefix of them. -/
structure Parses {α : Type} (read : Read α) (ref : Option Bytes) (a : α) : Prop where
  takes : ∀ (buf len) {e t}, ref = some e → (readerInit buf len).rest = e ++ t →
    ∃ r, read.exec (readerInit buf len) = (some a, r) ∧ r.pos = e.length
  truncated : ∀ (buf len) {e}, ref = some e → (readerInit buf len).rest <+: e →
    (readerInit buf len).rest ≠ e → ∃ r, read.exec (readerInit buf len) = (none, r)

theorem rest_readerInit (buf : Nat → UInt8) (len : Nat) :
    (readerInit buf len).rest = bytesOf buf len := by
  simp [Reader.rest, readerInit, bytesOf]

theorem wf_readerInit (buf : Nat → UInt8) (len : Nat) : (readerInit buf len).Wf :=
  ⟨Nat.le_refl 0, Nat.zero_le _⟩

theorem Reads.parses {α : Type} {read : Read α} {f : Format} {a : α} (h : Reads read f a) :
    Parses read (f 0) a where
  takes buf len _ _ he hrest := ⟨_, h.takes (wf_readerInit buf len) he hrest, Nat.zero_add _⟩
  truncated buf len _ he hpre hne := h.truncated (wf_readerInit buf len) he hpre hne

/-- The reader behind the encapsulation header. -/
def readerHeaded (buf : Nat → UInt8) (len : Nat) : Reader := ⟨buf, len, 4, 4⟩

theorem exec_readHeader {buf : Nat → UInt8} {len : Nat} {t : Bytes}
    (hrest : (readerInit buf len).rest = encapsulation ++ t) :
    readHeader.exec (readerInit buf len) = (some (), readerHeaded buf len) := by
  have hfetch := (reads_fetch #v[0x00, 0x01, 0x00, 0x00]).takes (wf_readerInit buf len) rfl hrest
  rw [readHeader, exec_bind_of_some hfetch]
  rfl

theorem exec_readHeader_short {buf : Nat → UInt8} {len : Nat} (hlen : len < 4) :
    readHeader.exec (readerInit buf len) = (none, readerInit buf len) := by
  have hfetch : (fetch 4).exec (readerInit buf len) = (none, readerInit buf len) := by
    rw [exec_fetch, if_neg]
    rw [Reader.length_rest]
    exact Nat.not_le.mpr hlen
  exact exec_bind_of_none hfetch

theorem rest_readerHeaded (buf : Nat → UInt8) (len : Nat) :
    (readerHeaded buf len).rest = (readerInit buf len).rest.drop 4 :=
  (readerInit buf len).rest_skip 4

theorem Reads.parses_header {α : Type} {read : Read α} {f : Format} {a : α} (h : Reads read f a) :
    Parses (do readHeader; read) ((f 0).map (encapsulation ++ ·)) a where
  takes buf len e t he hrest := by
    obtain ⟨body, hbody, rfl⟩ := Option.map_eq_some_iff.mp he
    rw [List.append_assoc] at hrest
    have hlen : 4 ≤ len := by
      have hlength : (encapsulation ++ (body ++ t)).length = len := by
        rw [← hrest]
        exact (readerInit buf len).length_rest
      rw [← hlength, List.length_append]
      exact Nat.le_add_right 4 _
    have wf : (readerHeaded buf len).Wf := ⟨Nat.le_refl 4, hlen⟩
    have hrest' : (readerHeaded buf len).rest = body ++ t := by
      rw [rest_readerHeaded, hrest]
      rfl
    refine ⟨(readerHeaded buf len).skip body.length, ?_, ?_⟩
    · rw [exec_bind_of_some (exec_readHeader hrest)]
      exact h.takes wf hbody hrest'
    · rw [List.length_append]
      rfl
  truncated buf len e he hpre hne := by
    obtain ⟨body, hbody, rfl⟩ := Option.map_eq_some_iff.mp he
    have hlength := (readerInit buf len).length_rest
    by_cases hlong : 4 ≤ len
    · obtain ⟨t, ht⟩ := List.prefix_of_prefix_length_le (List.prefix_append encapsulation body)
        hpre (hlength ▸ hlong)
      have wf : (readerHeaded buf len).Wf := ⟨Nat.le_refl 4, hlong⟩
      have hrest : (readerHeaded buf len).rest = t := by
        rw [rest_readerHeaded, ← ht]
        rfl
      rw [← ht, List.prefix_append_right_inj] at hpre
      rw [exec_bind_of_some (exec_readHeader ht.symm)]
      exact h.truncated wf hbody (hrest ▸ hpre)
        (by rw [hrest]; rintro rfl; exact hne ht.symm)
    · exact ⟨_, exec_bind_of_none (exec_readHeader_short (by omega))⟩

end RtosXrce.Xrce.Cdr
