import RtosXrce.Library.Bytes

/-!
# Wire formats whose padding depends on the offset

A `Format` says which bytes stand for a value at a given offset, and is undefined where the value
has no encoding. Formats are put one behind the other with `seq`, the later ones starting where the
earlier ones end.
-/

namespace RtosXrce.Library

abbrev Format := Nat → Option Bytes

namespace Format

def nil : Format := fun _ => some []

def raw (bytes : Bytes) : Format := fun _ => some bytes

/-- The bytes from `off` to the next multiple of `k`. -/
def padding (k off : Nat) : Nat := (k - off % k) % k

theorem add_padding {k : Nat} (hk : 0 < k) (off : Nat) :
    off + padding k off = if off % k = 0 then off else k * (off / k + 1) := by
  have hdiv := Nat.div_add_mod off k
  have hlt := Nat.mod_lt off hk
  rw [padding, Nat.mul_add_one]
  split
  next zero => rw [zero, Nat.sub_zero, Nat.mod_self, Nat.add_zero]
  next pos =>
    rw [Nat.mod_eq_of_lt (by omega)]
    omega

/-- Aligning keeps the order of offsets. -/
theorem add_padding_mono {k a b : Nat} (hk : 0 < k) (h : a ≤ b) :
    a + padding k a ≤ b + padding k b := by
  rw [add_padding hk a]
  split
  next => omega
  next rem =>
    have ha := Nat.div_add_mod a k
    have hb := Nat.div_add_mod b k
    rcases Nat.lt_or_eq_of_le (Nat.div_le_div_right (c := k) h) with next | same
    · -- `b` lies in a later cell
      have cells := Nat.mul_le_mul_left k (Nat.succ_le_of_lt next)
      rw [Nat.succ_eq_add_one] at cells
      omega
    · have hrem : b % k ≠ 0 := by
        rw [same] at ha
        omega
      exact Nat.le_of_eq (by rw [add_padding hk b, if_neg hrem, same])

/-- `bytes` at the next multiple of `k`, behind zeros. -/
def aligned (k : Nat) (bytes : Bytes) : Format :=
  fun off => some (List.replicate (padding k off) 0 ++ bytes)

def seq (f g : Format) : Format := fun off =>
  (f off).bind fun a => (g (off + a.length)).map (a ++ ·)

def seqAll (fs : List Format) : Format := fs.foldr seq nil

@[simp] theorem seqAll_nil : seqAll [] = nil := rfl

@[simp] theorem seqAll_cons (f : Format) (fs : List Format) :
    seqAll (f :: fs) = f.seq (seqAll fs) := rfl

@[simp] theorem seq_nil (f : Format) : f.seq nil = f := by
  funext off
  simp [seq, nil]

theorem seq_eq_some {f g : Format} {off : Nat} {e : Bytes} :
    f.seq g off = some e ↔ ∃ a b, f off = some a ∧ g (off + a.length) = some b ∧ e = a ++ b := by
  simp only [seq, Option.bind_eq_some_iff, Option.map_eq_some_iff]
  constructor
  · rintro ⟨a, ha, b, hb, rfl⟩
    exact ⟨a, b, ha, hb, rfl⟩
  · rintro ⟨a, b, ha, hb, rfl⟩
    exact ⟨a, ha, b, hb, rfl⟩

theorem raw_append (a b : Bytes) : raw (a ++ b) = (raw a).seq (raw b) := rfl

theorem seq_assoc (f g h : Format) : (f.seq g).seq h = f.seq (g.seq h) := by
  funext off
  apply Option.ext
  intro e
  simp only [seq_eq_some]
  constructor
  · rintro ⟨_, c, ⟨a, b, ha, hb, rfl⟩, hc, rfl⟩
    rw [List.length_append, ← Nat.add_assoc] at hc
    exact ⟨a, b ++ c, ha, ⟨b, c, hb, hc, rfl⟩, List.append_assoc a b c⟩
  · rintro ⟨a, _, ha, ⟨b, c, hb, hc, rfl⟩, rfl⟩
    rw [Nat.add_assoc, ← List.length_append] at hc
    exact ⟨a ++ b, c, ⟨a, b, ha, hb, rfl⟩, hc, (List.append_assoc a b c).symm⟩

/-- The value has an encoding at `off`, and it ends at `stop`. -/
def Spans (f : Format) (off stop : Nat) : Prop := ∃ e, f off = some e ∧ off + e.length = stop

theorem spans_raw (bytes : Bytes) (off : Nat) : (raw bytes).Spans off (off + bytes.length) :=
  ⟨bytes, rfl, rfl⟩

theorem spans_aligned (k : Nat) (bytes : Bytes) (off : Nat) :
    (aligned k bytes).Spans off (off + padding k off + bytes.length) := by
  refine ⟨_, rfl, ?_⟩
  rw [List.length_append, List.length_replicate, Nat.add_assoc]

theorem Spans.seq {f g : Format} {off mid stop : Nat} (hf : f.Spans off mid)
    (hg : g.Spans mid stop) : (f.seq g).Spans off stop := by
  obtain ⟨a, ha, rfl⟩ := hf
  obtain ⟨b, hb, rfl⟩ := hg
  refine ⟨a ++ b, seq_eq_some.mpr ⟨a, b, ha, hb, rfl⟩, ?_⟩
  rw [List.length_append, Nat.add_assoc]

/-- The value has an encoding at every offset. -/
def Defined (f : Format) : Prop := ∀ off, ∃ e, f off = some e

theorem defined_raw (bytes : Bytes) : (raw bytes).Defined := fun _ => ⟨bytes, rfl⟩

theorem defined_aligned (k : Nat) (bytes : Bytes) : (aligned k bytes).Defined := fun _ => ⟨_, rfl⟩

theorem Defined.seq {f g : Format} (hf : f.Defined) (hg : g.Defined) : (f.seq g).Defined := by
  intro off
  obtain ⟨a, ha⟩ := hf off
  obtain ⟨b, hb⟩ := hg (off + a.length)
  exact ⟨a ++ b, seq_eq_some.mpr ⟨a, b, ha, hb, rfl⟩⟩

theorem Defined.seqAll {fs : List Format} (h : ∀ f ∈ fs, f.Defined) :
    (Format.seqAll fs).Defined := by
  induction fs with
  | nil => exact defined_raw []
  | cons f fs ih =>
    exact (h f List.mem_cons_self).seq (ih fun g hg => h g (List.mem_cons_of_mem f hg))

end Format

/-! ## Little-endian words -/

/-- The bytes of `w`, the least significant first. -/
def littleEndian (n : Nat) (w : BitVec (8 * n)) : Bytes :=
  List.ofFn fun i : Fin n => ⟨w.extractLsb' (8 * i) 8⟩

@[simp] theorem length_littleEndian (n : Nat) (w : BitVec (8 * n)) :
    (littleEndian n w).length = n := by
  simp [littleEndian]

/-- The first `n` of `bytes` put together, the least significant first. -/
def gather (width n : Nat) (bytes : Bytes) : BitVec width :=
  (List.range n).foldl
    (fun v i => v ||| (bytes.getD i 0).toBitVec.setWidth width <<< (8 * i)) (0 : BitVec width)

theorem getLsbD_gather (width n : Nat) (bytes : Bytes) (j : Nat) :
    (gather width n bytes).getLsbD j = (decide (j < width) && decide (j < 8 * n) &&
      (bytes.getD (j / 8) 0).toBitVec.getLsbD (j % 8)) := by
  unfold gather
  induction n with
  | zero => simp
  | succ n ih =>
    rw [List.range_succ, List.foldl_append, List.foldl_cons, List.foldl_nil, BitVec.getLsbD_or, ih,
      BitVec.getLsbD_shiftLeft, BitVec.getLsbD_setWidth]
    by_cases hlow : j < 8 * n
    · have hnext : j < 8 * (n + 1) := by omega
      simp [hlow, hnext]
    · by_cases hhigh : j < 8 * (n + 1)
      · have hdiv : j / 8 = n := by omega
        have hmod : j % 8 = j - 8 * n := by omega
        have hwidth : j < width → j - 8 * n < width := by omega
        rw [hdiv, hmod]
        by_cases hj : j < width <;> simp [hlow, hhigh, hj, hwidth]
      · have hbyte : 8 ≤ j - 8 * n := by omega
        simp [hlow, hhigh, BitVec.getLsbD_of_ge, hbyte]

theorem gather_littleEndian (n : Nat) (w : BitVec (8 * n)) :
    gather (8 * n) n (littleEndian n w) = w := by
  apply BitVec.eq_of_getLsbD_eq
  intro j hj
  have hdiv : j / 8 < n := by omega
  have hbit : 8 * (j / 8) + j % 8 = j := by omega
  rw [getLsbD_gather]
  simp [littleEndian, hj, hdiv, hbit, List.getD_eq_getElem?_getD, Nat.mod_lt]

end RtosXrce.Library
