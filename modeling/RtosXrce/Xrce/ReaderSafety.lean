import RtosXrce.Xrce.CdrLayout
import RtosXrce.Xrce.ReaderMemory

/-!
# The readers stay inside their input

`Tracks len c r`: the machine reader `c` stands where the reader `r` of `Cdr` does, not past its
`len` bytes, and nothing out of bounds was accessed on the way. Every function of `Memory`
simulates the one of `Cdr`, `Msgs` or `Session` it restates, failures included.
-/

namespace RtosXrce.Xrce.Memory

open Library Library.Fallible

variable {t : Target} {α β : Type} {len : Size t}

/-- The reader has not left its input. -/
structure Confined (len : Size t) (c : Cursor t) : Prop where
  len_eq : c.len = len
  pos_le : c.pos ≤ len
  inside : ∀ a ∈ c.log, a.Inside len.toNat

/-- The reader, without the word size and the accesses. -/
def Cursor.reader (c : Cursor t) : Cdr.Reader where
  buf := c.buf
  len := c.len.toNat
  pos := c.pos.toNat
  alignBase := c.alignBase.toNat

structure Tracks (len : Size t) (c : Cursor t) (r : Cdr.Reader) : Prop where
  confined : Confined len c
  reader_eq : c.reader = r
  wf : r.Wf

theorem tracks_readerInit (buf : Nat → UInt8) (len : Size t) :
    Tracks len (readerInit buf len) (Cdr.readerInit buf len.toNat) where
  confined := ⟨rfl, by simp [readerInit, BitVec.le_def], by simp [readerInit]⟩
  reader_eq := by simp [readerInit, Cursor.reader, Cdr.readerInit]
  wf := ⟨Nat.zero_le _, Nat.zero_le _⟩

/-! ## Accesses -/

def Cursor.noted (c : Cursor t) (accesses : List Access) : Cursor t :=
  { c with log := c.log ++ accesses }

def Cursor.advanced (c : Cursor t) (n : Size t) : Cursor t := { c with pos := c.pos + n }

theorem Tracks.noted {c : Cursor t} {r : Cdr.Reader} (h : Tracks len c r) {accesses : List Access}
    (ha : ∀ a ∈ accesses, a.Inside len.toNat) : Tracks len (c.noted accesses) r where
  confined := ⟨h.confined.len_eq, h.confined.pos_le, fun a hmem =>
    (List.mem_append.mp hmem).elim (h.confined.inside a) (ha a)⟩
  reader_eq := h.reader_eq
  wf := h.wf

theorem Simulates.note {m : Traced t α} {n : Cdr.Read α} {accesses : List Access}
    (ha : ∀ a ∈ accesses, a.Inside len.toNat) (h : Simulates (Tracks len) m n) :
    Simulates (Tracks len) (do note accesses; m) n :=
  fun c r hrel => h (c.noted accesses) r (hrel.noted ha)

/-- The subtraction of `ensure` does not wrap. -/
theorem Tracks.ensure_iff {c : Cursor t} {r : Cdr.Reader} (h : Tracks len c r) (n : Size t) :
    n ≤ c.len - c.pos ↔ n.toNat ≤ r.rest.length := by
  obtain rfl := h.reader_eq
  have hle : c.pos ≤ c.len := h.confined.len_eq ▸ h.confined.pos_le
  rw [BitVec.le_def, BitVec.toNat_sub_of_le hle, Cdr.Reader.length_rest]
  rfl

theorem Tracks.check_inside {c : Cursor t} {r : Cdr.Reader} (h : Tracks len c r) :
    ∀ a ∈ [Access.check c.pos.toNat], a.Inside len.toNat := by
  intro a ha
  obtain rfl := List.mem_singleton.mp ha
  exact h.confined.pos_le

theorem Tracks.advanced {c : Cursor t} {r : Cdr.Reader} (h : Tracks len c r) {n : Size t}
    (hn : n.toNat ≤ r.rest.length) : Tracks len (c.advanced n) (r.skip n.toNat) := by
  obtain rfl := h.reader_eq
  have hlen := congrArg BitVec.toNat h.confined.len_eq
  have hwf := h.wf.skip hn
  have hpos : (c.pos + n).toNat = c.pos.toNat + n.toNat := by
    have hlt : c.pos.toNat + n.toNat ≤ c.len.toNat := hwf.pos_le
    exact BitVec.toNat_add_of_lt (hlt.trans_lt c.len.isLt)
  exact {
    confined := ⟨h.confined.len_eq, by
      rw [BitVec.le_def, ← hlen]
      exact hpos.le.trans hwf.pos_le, h.confined.inside⟩
    reader_eq := by simp only [Cursor.reader, Cursor.advanced, hpos, Cdr.Reader.skip]
    wf := hwf }

theorem exec_ensure (n : Size t) (c : Cursor t) :
    exec (ensure n) c =
      (if n ≤ c.len - c.pos then some () else none, c.noted [.check c.pos.toNat]) := by
  change exec (if n ≤ c.len - c.pos then pure () else failure : Traced t Unit) (c.noted _) = _
  rw [exec_ite]
  split <;> rfl

/-! ## Reads of a few bytes -/

/-- The next `n` bytes. -/
def window (r : Cdr.Reader) (n : Nat) : Vector UInt8 n := Vector.ofFn fun i => r.buf (r.pos + i)

/-- `body` computes `f` of the next `n` bytes if there are as many, and touches nothing else. -/
def Takes (n : Nat) (body : Traced t α) (f : Vector UInt8 n → α) : Prop :=
  ∀ c : Cursor t, c.pos.toNat + n ≤ c.len.toNat → ∃ accesses,
    exec body c = (some (f (window c.reader n)), c.noted accesses) ∧
      ∀ a ∈ accesses, a.Inside c.len.toNat

theorem simulates_take {n : Nat} {body : Traced t α} {f : Vector UInt8 n → α}
    (hn : n < 2 ^ t.width) (hbody : Takes n body f) :
    Simulates (Tracks len) (take n body) (do let b ← Cdr.fetch n; return f b) := by
  intro c r h
  have hsize : (BitVec.ofNat t.width n).toNat = n := by simpa using Nat.mod_eq_of_lt hn
  have hiff := h.ensure_iff (BitVec.ofNat t.width n)
  rw [hsize] at hiff
  have hchecked := h.noted h.check_inside
  rw [take, exec_bind, exec_ensure, exec_bind, Cdr.exec_fetch]
  by_cases hfits : n ≤ r.rest.length
  · have hroom : c.pos.toNat + n ≤ c.len.toNat := by
      have := h.wf.pos_le
      obtain rfl := h.reader_eq
      simp only [Cdr.Reader.length_rest, Cursor.reader] at hfits this
      omega
    obtain ⟨accesses, hexec, hinside⟩ := hbody (c.noted [.check c.pos.toNat]) hroom
    have htaken : Tracks len ((c.noted [.check c.pos.toNat]).noted accesses) r :=
      hchecked.noted (h.confined.len_eq ▸ hinside)
    have hafter := htaken.advanced (n := BitVec.ofNat t.width n) (by rwa [hsize])
    rw [hsize] at hafter
    simp only [if_pos (hiff.mpr hfits), if_pos hfits, exec_bind_of_some hexec]
    exact ⟨by obtain rfl := h.reader_eq; rfl, hafter⟩
  · simp only [if_neg (hiff.not.mpr hfits), if_neg hfits]
    exact ⟨trivial, hchecked⟩

theorem toNat_pos_add {c : Cursor t} {n i : Nat} (hroom : c.pos.toNat + n ≤ c.len.toNat)
    (hi : i < n) : (c.pos + BitVec.ofNat t.width i).toNat = c.pos.toNat + i := by
  have hlt := c.len.isLt
  have hmod : i % 2 ^ t.width = i := Nat.mod_eq_of_lt (by omega)
  rw [BitVec.toNat_add, BitVec.toNat_ofNat, hmod]
  exact Nat.mod_eq_of_lt (by omega)

theorem exec_load (i : Size t) (c : Cursor t) :
    exec (load i) c = (some (c.buf (c.pos + i).toNat), c.noted [.input (c.pos + i).toNat]) := rfl

/-- A load among the next `n` bytes. -/
theorem takes_load {n i : Nat} (hi : i < n) :
    Takes n (load (BitVec.ofNat t.width i)) fun b => b[i] := by
  intro c hroom
  have hpos := toNat_pos_add hroom hi
  refine ⟨[.input (c.pos.toNat + i)], ?_, ?_⟩
  · rw [exec_load, hpos]
    simp [window, Cursor.reader]
  · intro a ha
    obtain rfl := List.mem_singleton.mp ha
    change c.pos.toNat + i < c.len.toNat
    omega

theorem takes_loads (n : Nat) : Takes (t := t) n (loads n) id := by
  intro c hroom
  refine ⟨(List.range n).map fun i => .input (c.pos + BitVec.ofNat _ i).toNat, ?_, ?_⟩
  · have hwindow : (Vector.ofFn fun i : Fin n => c.buf (c.pos + BitVec.ofNat _ i.val).toNat) =
        window c.reader n := by
      apply Vector.ext
      intro i hi
      rw [window, Vector.getElem_ofFn, Vector.getElem_ofFn, toNat_pos_add hroom hi]
      rfl
    rw [id, ← hwindow]
    rfl
  · intro a ha
    obtain ⟨i, hi, rfl⟩ := List.mem_map.mp ha
    have hlt := List.mem_range.mp hi
    rw [toNat_pos_add hroom hlt]
    change c.pos.toNat + i < c.len.toNat
    omega

theorem takes_memcpy {cap n : Nat} (hcap : n ≤ cap) : Takes (t := t) n (memcpy cap n) id := by
  intro c hroom
  refine ⟨_, rfl, ?_⟩
  intro a ha
  obtain ⟨i, hi, ha⟩ := List.mem_flatMap.mp ha
  have hlt := List.mem_range.mp hi
  obtain rfl | rfl : a = .input (c.pos.toNat + i) ∨ a = .output cap i := by simpa using ha
  · change c.pos.toNat + i < c.len.toNat
    omega
  · exact hlt.trans_le hcap

/-! ## The functions of `Cdr` -/

theorem lt_two_pow {n : Nat} (hn : n < 2 ^ 32) : n < 2 ^ t.width := hn.trans_le t.two_pow_le

theorem simulates_fetch {n : Nat} {body : Traced t (Vector UInt8 n)} (hn : n < 2 ^ t.width)
    (hbody : Takes n body id) : Simulates (Tracks len) (take n body) (Cdr.fetch n) := by
  have htake : Simulates (Tracks len) (take n body) (do let b ← Cdr.fetch n; return id b) :=
    simulates_take hn hbody
  rwa [show (do let b ← Cdr.fetch n; return id b) = Cdr.fetch n from bind_pure _] at htake

theorem simulates_bytes {cap n : Nat} (hcap : n ≤ cap) (hn : n < 2 ^ t.width) :
    Simulates (Tracks len) (readBytes cap n) (Cdr.readBytes n) :=
  simulates_fetch hn (takes_memcpy hcap)

theorem exec_alignReader (n : Size t) (c : Cursor t) :
    exec (alignReader n) c = if (c.pos - c.alignBase) % n ≠ 0 then
      exec (do ensure (n - (c.pos - c.alignBase) % n); advance (n - (c.pos - c.alignBase) % n)) c
    else (some (), c) := by
  change exec (if _ then (do ensure _; advance _) else pure () : Traced t Unit) c = _
  rw [exec_ite]
  rfl

theorem simulates_align {k : Nat} (hk : 0 < k) (hlt : k < 2 ^ t.width) :
    Simulates (Tracks len) (alignReader (BitVec.ofNat _ k)) (Cdr.alignReader k) := by
  intro c r h
  have hsize : (BitVec.ofNat t.width k).toNat = k := by simpa using Nat.mod_eq_of_lt hlt
  have hmod : r.off % k < k := Nat.mod_lt _ hk
  have hrem : ((c.pos - c.alignBase) % BitVec.ofNat t.width k).toNat = r.off % k := by
    obtain rfl := h.reader_eq
    rw [BitVec.toNat_umod, BitVec.toNat_sub_of_le h.wf.base_le, hsize]
    rfl
  rw [Cdr.exec_alignReader hk, exec_alignReader]
  generalize (c.pos - c.alignBase) % BitVec.ofNat t.width k = rem at hrem ⊢
  by_cases hzero : r.off % k = 0
  · have hpad : Format.padding k r.off = 0 := by
      rw [Format.padding, hzero, Nat.sub_zero, Nat.mod_self]
    have hnot : rem = 0 := BitVec.eq_of_toNat_eq (by simpa [hzero] using hrem)
    rw [if_neg (not_not.mpr hnot), hpad, if_pos (Nat.zero_le _)]
    exact ⟨rfl, h⟩
  · have hpad : Format.padding k r.off = k - r.off % k := Nat.mod_eq_of_lt (by omega)
    have hne : rem ≠ 0 := by
      rintro rfl
      exact hzero (by simpa using hrem.symm)
    have hpadded : (BitVec.ofNat t.width k - rem).toNat = Format.padding k r.off := by
      rw [BitVec.toNat_sub_of_le (by rw [BitVec.le_def]; omega)]
      omega
    have hiff := h.ensure_iff (BitVec.ofNat t.width k - rem)
    rw [hpadded] at hiff
    have hchecked := h.noted h.check_inside
    rw [if_pos hne, exec_bind, exec_ensure]
    by_cases hfits : Format.padding k r.off ≤ r.rest.length
    · have hafter := hchecked.advanced (n := BitVec.ofNat t.width k - rem) (by rwa [hpadded])
      rw [hpadded] at hafter
      simp only [if_pos (hiff.mpr hfits), if_pos hfits]
      exact ⟨rfl, hafter⟩
    · simp only [if_neg (hiff.not.mpr hfits), if_neg hfits]
      exact ⟨trivial, hchecked⟩

theorem simulates_u8 : Simulates (Tracks len) readU8 Cdr.readU8 :=
  simulates_take (lt_two_pow (n := 1) (by decide)) (takes_load (by decide))

theorem simulates_bool : Simulates (Tracks len) readBool Cdr.readBool :=
  simulates_u8.bind fun _ => .pure _

theorem simulates_word {n : Nat} (hpos : 0 < n) (hn : n < 2 ^ t.width) (f : Vector UInt8 n → α) :
    Simulates (Tracks len) (do let b ← readWord n; return f b)
      (do Cdr.alignReader n; let b ← Cdr.fetch n; return f b) := by
  rw [readWord, bind_assoc]
  refine (simulates_align hpos hn).bind fun _ => ?_
  exact (simulates_fetch hn (takes_loads n)).bind fun _ => .pure _

theorem simulates_i16 : Simulates (Tracks len) readI16 Cdr.readI16 :=
  simulates_word (by decide) (lt_two_pow (by decide)) _

theorem simulates_u32 : Simulates (Tracks len) readU32 Cdr.readU32 :=
  simulates_word (by decide) (lt_two_pow (by decide)) _

theorem simulates_i32 : Simulates (Tracks len) readI32 Cdr.readI32 :=
  simulates_u32.bind fun _ => .pure _

theorem simulates_f64 : Simulates (Tracks len) readF64 Cdr.readF64 :=
  simulates_word (by decide) (lt_two_pow (by decide)) _

theorem takes_isCdrLe :
    Takes (t := t) 4 isCdrLe fun b => decide (b.get 0 = 0x00 ∧ b.get 1 = 0x01) := by
  have hload0 : Takes (t := t) 4 (load 0) fun b => b.get 0 := takes_load (by decide)
  have hload1 : Takes (t := t) 4 (load 1) fun b => b.get 1 := takes_load (by decide)
  intro c hroom
  obtain ⟨first, hfirst, hinside⟩ := hload0 c hroom
  obtain ⟨second, hsecond, hinside'⟩ := hload1 (c.noted first) hroom
  rw [isCdrLe, exec_bind_of_some hfirst, exec_ite]
  by_cases hb : (window c.reader 4).get 0 = 0x00
  · refine ⟨first ++ second, ?_, fun a ha => (List.mem_append.mp ha).elim (hinside a) (hinside' a)⟩
    have hwindow : window (c.noted first).reader 4 = window c.reader 4 := rfl
    have hnoted : (c.noted first).noted second = c.noted (first ++ second) := by
      simp [Cursor.noted]
    rw [if_pos hb, exec_bind_of_some hsecond, hwindow, hnoted]
    simp only [hb, true_and]
    rfl
  · refine ⟨first, ?_, hinside⟩
    rw [if_neg hb]
    simp only [hb, false_and, decide_false]
    rfl

theorem simulates_rebase :
    Simulates (Tracks len) (modify fun c => { c with alignBase := c.pos } : Traced t Unit)
      (modify fun r => { r with alignBase := r.pos } : Cdr.Read Unit) := by
  intro c r h
  obtain rfl := h.reader_eq
  exact ⟨rfl, ⟨h.confined.len_eq, h.confined.pos_le, h.confined.inside⟩, rfl, le_rfl, h.wf.pos_le⟩

theorem simulates_header : Simulates (Tracks len) readHeader Cdr.readHeader := by
  have hspec : Cdr.readHeader = (do
      let ok ← (do let b ← Cdr.fetch 4; return decide (b[0] = 0x00 ∧ b[1] = 0x01))
      modify fun r => { r with alignBase := r.pos }
      if ok then return else failure) := by
    simp only [Cdr.readHeader, bind_assoc, pure_bind, decide_eq_true_eq]
  rw [hspec]
  refine (simulates_take (lt_two_pow (by decide)) takes_isCdrLe).bind fun _ => ?_
  exact simulates_rebase.bind fun _ => .ite (.pure _) .failure

theorem sizeOfU32_le_iff {n : Nat} (hn : n < 2 ^ t.width) (v : UInt32) :
    (sizeOfU32 v : Size t) ≤ BitVec.ofNat _ n ↔ v.toNat ≤ n := by
  rw [BitVec.le_def, toNat_sizeOfU32, BitVec.toNat_ofNat, Nat.mod_eq_of_lt hn]

theorem simulates_string {outCap : Nat} (hcap : outCap < 2 ^ t.width) :
    Simulates (Tracks len) (readString outCap) (Cdr.readString outCap) := by
  refine simulates_u32.bind fun slen => ?_
  have hiff := sizeOfU32_le_iff hcap slen
  by_cases hfits : slen.toNat ≠ 0 ∧ slen.toNat ≤ outCap
  · rw [dif_pos ⟨hfits.1, hiff.mpr hfits.2⟩, dif_pos hfits]
    refine (simulates_fetch (hfits.2.trans_lt hcap) (takes_memcpy hfits.2)).bind fun out => ?_
    refine Simulates.note (fun a ha => ?_) ?_
    · obtain rfl := List.mem_singleton.mp ha
      change slen.toNat - 1 < outCap
      omega
    · split
      · exact .pure _
      · exact .failure
  · rw [dif_neg (fun h => hfits ⟨h.1, hiff.mp h.2⟩), dif_neg hfits]
    exact .failure

section

variable {read : Traced t α} {spec : Cdr.Read α}

theorem simulates_many (h : Simulates (Tracks len) read spec) {cap i n : Nat} (hcap : i + n ≤ cap) :
    Simulates (Tracks len) (readMany read cap i n) (Cdr.readMany spec n) := by
  induction n generalizing i with
  | zero => exact .pure _
  | succ n ih =>
    refine Simulates.note (fun a ha => ?_) ?_
    · obtain rfl := List.mem_singleton.mp ha
      change i < cap
      omega
    · exact h.bind fun _ => (ih (by omega)).bind fun _ => .pure _

theorem simulates_sequence (h : Simulates (Tracks len) read spec) {outCap : Nat}
    (hcap : outCap < 2 ^ t.width) :
    Simulates (Tracks len) (readSequence read outCap) (Cdr.readSequence spec outCap) := by
  refine simulates_u32.bind fun count => ?_
  have hiff := sizeOfU32_le_iff hcap count
  by_cases hfits : count.toNat ≤ outCap
  · rw [dif_pos (hiff.mpr hfits), dif_pos hfits]
    exact (simulates_many h (by omega)).bind fun _ => .pure _
  · rw [dif_neg (hiff.not.mpr hfits), dif_neg hfits]
    exact .failure

end

/-! ## Decoders -/

/-- A function that agrees with its specification and leaves a confined reader. -/
def Safe (run : (Nat → UInt8) → Size t → Option α × Cursor t)
    (spec : (Nat → UInt8) → Nat → Option α) : Prop :=
  ∀ buf len, (run buf len).1 = spec buf len.toNat ∧ Confined len (run buf len).2

theorem safe_decode {body : Traced t α} {spec : Cdr.Read α}
    (h : ∀ len, Simulates (Tracks len) body spec) : Safe (decode body) (Msgs.decode spec) := by
  intro buf len
  obtain ⟨hresult, htracks⟩ :=
    simulates_header.bind (fun _ => h len) _ _ (tracks_readerInit buf len)
  exact ⟨hresult, htracks.confined⟩

theorem simulates_vec3 : Simulates (Tracks len) readVec3 Msgs.readVec3 :=
  simulates_f64.bind fun _ => simulates_f64.bind fun _ => simulates_f64.bind fun _ => .pure _

theorem simulates_cov : Simulates (Tracks len) readCov Msgs.readCov :=
  (simulates_many simulates_f64 (by decide)).bind fun _ => .pure _

theorem simulates_text {n : Nat} (hn : n < 2 ^ 32) :
    Simulates (Tracks len) (readString n) (Cdr.readString n) :=
  simulates_string (lt_two_pow hn)

theorem simulates_imu : Simulates (Tracks len) readImu Msgs.SensorMsgsImu.read :=
  simulates_i32.bind fun _ => simulates_u32.bind fun _ => (simulates_text (by decide)).bind fun _ =>
    simulates_f64.bind fun _ => simulates_f64.bind fun _ => simulates_f64.bind fun _ =>
    simulates_f64.bind fun _ => simulates_cov.bind fun _ => simulates_vec3.bind fun _ =>
    simulates_cov.bind fun _ => simulates_vec3.bind fun _ => simulates_cov.bind fun _ => .pure _

theorem simulates_fibonacciResult :
    Simulates (Tracks len) readFibonacciResult Msgs.readFibonacciResult :=
  (simulates_sequence simulates_i32 (lt_two_pow (by decide))).bind fun _ => .pure _

theorem simulates_uuid : Simulates (Tracks len) readUuid (Cdr.readBytes Msgs.uuidSize) :=
  simulates_bytes le_rfl (lt_two_pow (by decide))

theorem simulates_goalInfo : Simulates (Tracks len) readGoalInfo Msgs.readGoalInfo :=
  simulates_uuid.bind fun _ => simulates_i32.bind fun _ => simulates_u32.bind fun _ => .pure _

theorem simulates_goalStatus : Simulates (Tracks len) readGoalStatus Msgs.readGoalStatus :=
  simulates_goalInfo.bind fun _ => simulates_u8.bind fun _ => .pure _

theorem simulates_keyValue : Simulates (Tracks len) readKeyValue Msgs.readKeyValue :=
  (simulates_text (by decide)).bind fun _ => (simulates_text (by decide)).bind fun _ => .pure _

theorem simulates_diagnosticStatus :
    Simulates (Tracks len) readDiagnosticStatus Msgs.readDiagnosticStatus :=
  simulates_u8.bind fun _ => (simulates_text (by decide)).bind fun _ =>
    (simulates_text (by decide)).bind fun _ => (simulates_text (by decide)).bind fun _ =>
    (simulates_sequence simulates_keyValue (lt_two_pow (by decide))).bind fun _ => .pure _

/-- The decoder of `Msgs`. -/
def Decoder.spec : (d : Decoder) → (Nat → UInt8) → Nat → Option d.Message
  | stdMsgsInt32 => Msgs.StdMsgsInt32.decode
  | stdMsgsString => Msgs.StdMsgsString.decode
  | sensorMsgsImu => Msgs.SensorMsgsImu.decode
  | geometryMsgsTwist => Msgs.GeometryMsgsTwist.decode
  | stdSrvsTriggerRequest => Msgs.StdSrvsTriggerRequest.decode
  | stdSrvsTriggerResponse => Msgs.StdSrvsTriggerResponse.decode
  | fibonacciSendGoalRequest => Msgs.FibonacciSendGoalRequest.decode
  | fibonacciSendGoalResponse => Msgs.FibonacciSendGoalResponse.decode
  | fibonacciGetResultRequest => Msgs.FibonacciGetResultRequest.decode
  | fibonacciGetResultResponse => Msgs.FibonacciGetResultResponse.decode
  | fibonacciFeedbackMessage => Msgs.FibonacciFeedbackMessage.decode
  | actionMsgsGoalStatus => Msgs.ActionMsgsGoalStatus.decode
  | actionMsgsGoalStatusArray => Msgs.ActionMsgsGoalStatusArray.decode
  | actionMsgsCancelGoalRequest => Msgs.ActionMsgsCancelGoalRequest.decode
  | actionMsgsCancelGoalResponse => Msgs.ActionMsgsCancelGoalResponse.decode
  | diagnosticMsgsDiagnosticArray => Msgs.DiagnosticMsgsDiagnosticArray.decode

theorem Decoder.safe (d : Decoder) : Safe (t := t) d.run d.spec := by
  cases d with
  | stdMsgsInt32 => exact safe_decode fun _ => simulates_i32.bind fun _ => .pure _
  | stdMsgsString => exact safe_decode fun _ => (simulates_text (by decide)).bind fun _ => .pure _
  | sensorMsgsImu => exact safe_decode fun _ => simulates_imu
  | geometryMsgsTwist =>
    exact safe_decode fun _ => simulates_vec3.bind fun _ => simulates_vec3.bind fun _ => .pure _
  | stdSrvsTriggerRequest => exact safe_decode fun _ => .pure _
  | stdSrvsTriggerResponse =>
    exact safe_decode fun _ => simulates_bool.bind fun _ =>
      (simulates_text (by decide)).bind fun _ => .pure _
  | fibonacciSendGoalRequest =>
    exact safe_decode fun _ => simulates_uuid.bind fun _ => simulates_i32.bind fun _ => .pure _
  | fibonacciSendGoalResponse =>
    exact safe_decode fun _ => simulates_bool.bind fun _ => simulates_i32.bind fun _ =>
      simulates_u32.bind fun _ => .pure _
  | fibonacciGetResultRequest => exact safe_decode fun _ => simulates_uuid.bind fun _ => .pure _
  | fibonacciGetResultResponse =>
    exact safe_decode fun _ => simulates_u8.bind fun _ =>
      simulates_fibonacciResult.bind fun _ => .pure _
  | fibonacciFeedbackMessage =>
    exact safe_decode fun _ => simulates_uuid.bind fun _ =>
      simulates_fibonacciResult.bind fun _ => .pure _
  | actionMsgsGoalStatus => exact safe_decode fun _ => simulates_goalStatus
  | actionMsgsGoalStatusArray =>
    exact safe_decode fun _ =>
      (simulates_sequence simulates_goalStatus (lt_two_pow (by decide))).bind fun _ => .pure _
  | actionMsgsCancelGoalRequest =>
    exact safe_decode fun _ => simulates_goalInfo.bind fun _ => .pure _
  | actionMsgsCancelGoalResponse =>
    exact safe_decode fun _ => simulates_u8.bind fun _ =>
      (simulates_sequence simulates_goalInfo (lt_two_pow (by decide))).bind fun _ => .pure _
  | diagnosticMsgsDiagnosticArray =>
    exact safe_decode fun _ => simulates_i32.bind fun _ => simulates_u32.bind fun _ =>
      (simulates_text (by decide)).bind fun _ =>
      (simulates_sequence simulates_diagnosticStatus (lt_two_pow (by decide))).bind fun _ =>
        .pure _

/-! ## Parsers -/

theorem exec_skipMessageHeader_read (r : Cdr.Reader) :
    exec Session.skipMessageHeader r =
      if r.len < 2 then (none, r)
      else if r.len < Session.headerLen (r.buf 0) then (none, r)
      else (some (), { r with pos := Session.headerLen (r.buf 0) }) := by
  change exec (if r.len < 2 then _ else _ : Cdr.Read Unit) r = _
  rw [exec_ite]
  congr 1
  rw [exec_ite]
  rfl

theorem exec_skipMessageHeader (c : Cursor t) :
    exec skipMessageHeader c =
      if c.len < BitVec.ofNat _ 2 then (none, c)
      else if c.len < BitVec.ofNat _ (Session.headerLen (c.buf 0)) then
        (none, c.noted [.input 0])
      else (some (), { c.noted [.input 0] with
        pos := BitVec.ofNat _ (Session.headerLen (c.buf 0)) }) := by
  change exec (if c.len < BitVec.ofNat _ 2 then _ else _ : Traced t Unit) c = _
  rw [exec_ite]
  congr 1
  change exec (if c.len < BitVec.ofNat _ (Session.headerLen (c.buf 0)) then _ else _
    : Traced t Unit) (c.noted [.input 0]) = _
  rw [exec_ite]
  rfl

theorem lt_ofNat_iff {n : Nat} (hn : n < 2 ^ t.width) (a : Size t) :
    a < BitVec.ofNat _ n ↔ a.toNat < n := by
  rw [BitVec.lt_def, BitVec.toNat_ofNat, Nat.mod_eq_of_lt hn]

theorem headerLen_cases (sessionId : UInt8) :
    Session.headerLen sessionId = 8 ∨ Session.headerLen sessionId = 4 := by
  rw [Session.headerLen]
  split
  · exact .inl rfl
  · exact .inr rfl

/-- The position is set without `ensure`, after a test of its own. -/
theorem Tracks.skipMessageHeader {c : Cursor t} {r : Cdr.Reader} (h : Tracks len c r)
    (hbase : c.alignBase = 0) :
    (exec skipMessageHeader c).1 = (exec Session.skipMessageHeader r).1 ∧
      Tracks len (exec skipMessageHeader c).2 (exec Session.skipMessageHeader r).2 := by
  obtain rfl := h.reader_eq
  have hheader : Session.headerLen (c.buf 0) < 2 ^ t.width := by
    obtain heq | heq := headerLen_cases (c.buf 0)
    · exact heq ▸ lt_two_pow (by decide)
    · exact heq ▸ lt_two_pow (by decide)
  have hlen : c.reader.len = c.len.toNat := rfl
  have hbuf : c.reader.buf = c.buf := rfl
  rw [exec_skipMessageHeader, exec_skipMessageHeader_read, hlen, hbuf]
  simp only [lt_ofNat_iff (lt_two_pow (n := 2) (by decide)), lt_ofNat_iff hheader]
  by_cases hshort : c.len.toNat < 2
  · simp only [if_pos hshort]
    exact ⟨trivial, h⟩
  have hnoted : Tracks len (c.noted [.input 0]) c.reader := by
    refine h.noted fun a ha => ?_
    obtain rfl := List.mem_singleton.mp ha
    change 0 < len.toNat
    rw [← h.confined.len_eq]
    omega
  by_cases hcut : c.len.toNat < Session.headerLen (c.buf 0)
  · simp only [if_neg hshort, if_pos hcut]
    exact ⟨trivial, hnoted⟩
  · simp only [if_neg hshort, if_neg hcut]
    have hpos : (BitVec.ofNat t.width (Session.headerLen (c.buf 0))).toNat =
        Session.headerLen (c.buf 0) := by simpa using Nat.mod_eq_of_lt hheader
    refine ⟨trivial, ⟨hnoted.confined.len_eq, ?_, hnoted.confined.inside⟩, ?_, ?_, ?_⟩
    · rw [BitVec.le_def, ← h.confined.len_eq, hpos]
      omega
    · simp only [Cursor.reader, hpos, Cursor.noted]
    · simp [Cursor.reader, hbase]
    · exact Nat.not_lt.mp hcut

theorem simulates_u16 : Simulates (Tracks len) readU16 Session.readU16 :=
  simulates_i16.bind fun _ => .pure _

theorem simulates_objectId : Simulates (Tracks len) readObjectId Session.readObjectId :=
  (simulates_bytes le_rfl (lt_two_pow (by decide))).bind fun _ => .pure _

theorem simulates_status : Simulates (Tracks len) readStatus Session.readStatus :=
  simulates_u8.bind fun _ => .pure _

theorem safe_parse {submessageId : UInt8} {body : Traced t α} {spec : Cdr.Read α}
    (h : ∀ len, Simulates (Tracks len) body spec) :
    Safe (parse submessageId body) (Session.parse submessageId spec) := by
  intro buf len
  have hstart := (tracks_readerInit buf len).skipMessageHeader rfl
  obtain ⟨hresult, htracks⟩ := Simulates.after hstart fun _ =>
    simulates_u8.bind fun id => simulates_u8.bind fun _ => simulates_u16.bind fun _ =>
      .ite (p := id ≠ submessageId) (Simulates.failure.bind fun _ => h len) (h len)
  exact ⟨hresult, htracks.confined⟩

theorem safe_parseCreateClientReply :
    Safe (t := t) parseCreateClientReply
      (Session.parse Session.submsgStatusAgent Session.readStatus) :=
  safe_parse fun _ => simulates_status

theorem safe_parseStatusReply :
    Safe (t := t) parseStatusReply (Session.parse Session.submsgStatus do
      let _relatedRequest ← Cdr.readBytes 4
      Session.readStatus) :=
  safe_parse fun _ => (simulates_bytes le_rfl (lt_two_pow (by decide))).bind fun _ =>
    simulates_status

theorem safe_parseAcknack : Safe (t := t) parseAcknack Session.parseAcknack :=
  safe_parse fun _ => simulates_u16.bind fun _ =>
    (simulates_bytes le_rfl (lt_two_pow (by decide))).bind fun _ =>
    simulates_u8.bind fun _ => .pure _

theorem simulates_sample (objectId : ObjectId) :
    Simulates (Tracks len)
      (do let c ← get
          return { objectId, sampleStart := c.pos.toNat, sampleLen := (c.len - c.pos).toNat } :
        Traced t Session.Data)
      (do let r ← get
          return { objectId, sampleStart := r.pos, sampleLen := r.len - r.pos } :
        Cdr.Read Session.Data) := by
  intro c r h
  obtain rfl := h.reader_eq
  refine ⟨?_, h⟩
  have hle : c.pos ≤ c.len := h.confined.len_eq ▸ h.confined.pos_le
  have hsub : (c.len - c.pos).toNat = c.len.toNat - c.pos.toNat := BitVec.toNat_sub_of_le hle
  change some (_ : Session.Data) = some _
  rw [hsub]
  rfl

theorem safe_parseData : Safe (t := t) parseData Session.parseData :=
  safe_parse fun _ => (simulates_bytes le_rfl (lt_two_pow (by decide))).bind fun _ =>
    simulates_objectId.bind simulates_sample

theorem exec_of_parse {submessageId : UInt8} {body : Traced t α} {buf : Nat → UInt8} {a : α}
    {c : Cursor t} (h : parse submessageId body buf len = (some a, c)) :
    ∃ u, exec body u = (some a, c) := by
  obtain ⟨_, _, -, hid⟩ := exec_bind_eq_some h
  obtain ⟨_, _, -, hflags⟩ := exec_bind_eq_some hid
  obtain ⟨_, _, -, hlen⟩ := exec_bind_eq_some hflags
  obtain ⟨_, u, -, htest⟩ := exec_bind_eq_some hlen
  rw [exec_ite] at htest
  split at htest
  · have hnone : none = some a := congrArg Prod.fst htest
    cases hnone
  · exact ⟨u, htest⟩

/-- The sample runs from where the reader stands to the end of the input. -/
theorem parseData_sample {buf : Nat → UInt8} {c : Cursor t} {data : Session.Data}
    (h : parseData buf len = (some data, c)) :
    data.sampleStart = c.pos.toNat ∧ data.sampleLen = (c.len - c.pos).toNat := by
  obtain ⟨_, hbody⟩ := exec_of_parse h
  obtain ⟨_, _, -, hobject⟩ := exec_bind_eq_some hbody
  obtain ⟨objectId, u, -, hsample⟩ := exec_bind_eq_some hobject
  obtain ⟨hdata, rfl⟩ := Prod.mk.inj hsample
  obtain rfl := Option.some.inj hdata
  exact ⟨rfl, rfl⟩

/-! ## Every entry point -/

theorem Tracks.call {c : Cursor t} {r : Cdr.Reader} (h : Tracks len c r) (call : Call t) :
    ∃ r', Tracks len (call.run c) r' := by
  cases call with
  | header => exact ⟨_, (simulates_header c r h).2⟩
  | bool => exact ⟨_, (simulates_bool c r h).2⟩
  | u8 => exact ⟨_, (simulates_u8 c r h).2⟩
  | i16 => exact ⟨_, (simulates_i16 c r h).2⟩
  | bytes n => exact ⟨_, (simulates_bytes le_rfl n.isLt c r h).2⟩
  | i32 => exact ⟨_, (simulates_i32 c r h).2⟩
  | u32 => exact ⟨_, (simulates_u32 c r h).2⟩
  | f64 => exact ⟨_, (simulates_f64 c r h).2⟩
  | string outCap => exact ⟨_, (simulates_string outCap.isLt c r h).2⟩
  | seqI32 outCap => exact ⟨_, (simulates_sequence simulates_i32 outCap.isLt c r h).2⟩

theorem Tracks.runAll {c : Cursor t} {r : Cdr.Reader} (h : Tracks len c r)
    (calls : List (Call t)) : ∃ r', Tracks len (runAll calls c) r' := by
  induction calls generalizing c r with
  | nil => exact ⟨r, h⟩
  | cons call calls ih =>
    obtain ⟨r', h'⟩ := h.call call
    exact ih h'

/-- Whatever the buffer holds, on both machines: any list of reader calls, each of the decoders and
each of the parsers loads bytes of the buffer only, and the sample that `parseData` hands out lies
in it. -/
theorem decoders_stay_inside (buf : Nat → UInt8) (len : Size t) :
    (∀ calls, Confined len (runAll calls (readerInit buf len))) ∧
    (∀ d : Decoder, Confined len (d.run buf len).2) ∧
    Confined len (parseCreateClientReply buf len).2 ∧
    Confined len (parseCreateReply buf len).2 ∧
    Confined len (parseDeleteReply buf len).2 ∧
    Confined len (parseData buf len).2 ∧
    Confined len (parseAcknack buf len).2 ∧
    ∀ data, (parseData buf len).1 = some data →
      data.sampleStart + data.sampleLen ≤ len.toNat := by
  have hdata := (safe_parseData buf len).2
  refine ⟨fun calls => ?_, fun d => (d.safe buf len).2, (safe_parseCreateClientReply buf len).2,
    (safe_parseStatusReply buf len).2, (safe_parseStatusReply buf len).2, hdata,
    (safe_parseAcknack buf len).2, fun data hsome => ?_⟩
  · obtain ⟨_, h⟩ := (tracks_readerInit buf len).runAll calls
    exact h.confined
  · obtain ⟨hstart, hlen⟩ := parseData_sample (Prod.ext hsome rfl)
    have hle := hdata.pos_le
    rw [hstart, hlen, hdata.len_eq, BitVec.toNat_sub_of_le hle]
    exact (Nat.add_sub_cancel' hle).le

/-- A DATA message of 14 bytes, and the two bytes of its sample. -/
example : (parseData (t := .board)
    (fun i => [0x81, 0, 0, 0, 9, 1, 6, 0, 0, 0, 0, 0x16, 7, 8].getD i 0) 14).1 =
      some ⟨⟨1, 6⟩, 12, 2⟩ := by rfl

end RtosXrce.Xrce.Memory
