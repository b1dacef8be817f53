import Mathlib.Logic.Function.Iterate
import RtosXrce.Library.Bytes

/-!
# Reflected cyclic redundancy checks

A register of `w` bits takes in a message bit by bit, least significant first. The register is
linear in what it has taken in, so whether a changed message goes unnoticed depends on the
changed bits alone: `run_xor`. No change within `w` neighbouring bits does, and none of an odd
number of bits if the polynomial itself has an even number of terms.
-/

namespace RtosXrce.Library

/-- A polynomial of degree `w`, its top term left out, in reflected order: the constant term is the
highest bit and present. -/
structure Crc (w : Nat) where
  poly : BitVec w
  top : poly.getLsbD (w - 1) = true

namespace Crc

variable {w : Nat} (C : Crc w)

/-- One turn of the bit loop. -/
def shift (reg : BitVec w) : BitVec w :=
  if reg.getLsbD 0 then (reg >>> 1) ^^^ C.poly else reg >>> 1

/-- A bit as the lowest of a register. -/
def low (w : Nat) (b : Bool) : BitVec w := (BitVec.ofBool b).setWidth w

/-- Take in one bit. -/
def take (reg : BitVec w) (b : Bool) : BitVec w := C.shift (reg ^^^ low w b)

/-- Take in a message. -/
def run (reg : BitVec w) (bits : List Bool) : BitVec w := bits.foldl C.take reg

@[simp] theorem run_nil (reg : BitVec w) : C.run reg [] = reg := rfl

@[simp] theorem run_cons (reg : BitVec w) (b : Bool) (bits : List Bool) :
    C.run reg (b :: bits) = C.run (C.take reg b) bits := rfl

theorem run_append (reg : BitVec w) (xs ys : List Bool) :
    C.run reg (xs ++ ys) = C.run (C.run reg xs) ys := by
  simp [run]

/-! ## Linearity -/

theorem xor_poly_cancel (a b p : BitVec w) : (a ^^^ p) ^^^ (b ^^^ p) = a ^^^ b := by
  apply BitVec.eq_of_getLsbD_eq
  intro i _
  simp only [BitVec.getLsbD_xor]
  cases a.getLsbD i <;> cases b.getLsbD i <;> cases p.getLsbD i <;> rfl

theorem shift_xor (a b : BitVec w) : C.shift (a ^^^ b) = C.shift a ^^^ C.shift b := by
  unfold shift
  simp only [BitVec.getLsbD_xor, BitVec.ushiftRight_xor_distrib]
  cases a.getLsbD 0 <;> cases b.getLsbD 0
  · simp
  · simp [BitVec.xor_assoc]
  · simp only [Bool.xor_false, if_true, Bool.false_eq_true, if_false]
    rw [BitVec.xor_assoc, BitVec.xor_comm (b >>> 1), ← BitVec.xor_assoc]
  · simp [xor_poly_cancel]

@[simp] theorem shift_zero : C.shift 0 = 0 := by simp [shift]

include C in
theorem width_pos : 0 < w := by
  by_contra none
  have top := C.top
  rw [BitVec.getLsbD_of_ge _ _ (by omega)] at top
  cases top

/-- The constant term shows that a bit was dropped. -/
theorem eq_zero_of_shift {reg : BitVec w} (h : C.shift reg = 0) : reg = 0 := by
  have pos := C.width_pos
  unfold shift at h
  split at h
  next =>
    have top := congrArg (BitVec.getLsbD · (w - 1)) h
    simp [C.top, BitVec.getLsbD_of_ge reg (1 + (w - 1)) (by omega)] at top
  next even =>
    apply BitVec.eq_of_getLsbD_eq
    intro i hi
    cases i with
    | zero => simpa using even
    | succ i =>
      have bit := congrArg (BitVec.getLsbD · i) h
      simpa [Nat.add_comm] using bit

theorem iterate_shift_zero (k : Nat) : C.shift^[k] 0 = 0 := Function.iterate_fixed C.shift_zero k

theorem eq_zero_of_iterate {k : Nat} {reg : BitVec w} (h : C.shift^[k] reg = 0) : reg = 0 := by
  induction k generalizing reg with
  | zero => exact h
  | succ k ih => exact C.eq_zero_of_shift (ih h)

theorem low_xor (a b : Bool) : low w (a ^^ b) = low w a ^^^ low w b := by
  apply BitVec.eq_of_getLsbD_eq
  intro i hi
  cases a <;> cases b <;> simp [low]

theorem take_xor (r s : BitVec w) (a b : Bool) :
    C.take (r ^^^ s) (a ^^ b) = C.take r a ^^^ C.take s b := by
  unfold take
  rw [← shift_xor, low_xor]
  congr 1
  rw [BitVec.xor_assoc, BitVec.xor_assoc]
  congr 1
  rw [← BitVec.xor_assoc, ← BitVec.xor_assoc, BitVec.xor_comm s]

/-- Two messages of one length and their difference. -/
theorem run_xor (r s : BitVec w) {xs ys : List Bool} (h : xs.length = ys.length) :
    C.run (r ^^^ s) (List.zipWith (· ^^ ·) xs ys) = C.run r xs ^^^ C.run s ys := by
  induction xs generalizing r s ys with
  | nil =>
    cases ys with
    | nil => rfl
    | cons => cases h
  | cons x xs ih =>
    cases ys with
    | nil => cases h
    | cons y ys =>
      rw [List.zipWith_cons_cons, run_cons, take_xor, ih _ _ (Nat.succ.inj h)]
      rfl

/-! ## Words as bits -/

/-- The lowest `k` bits of a word, in the order they are taken in. -/
def bitsOf {n : Nat} (k : Nat) (x : BitVec n) : List Bool := (List.range k).map x.getLsbD

theorem bitsOf_succ {n : Nat} (k : Nat) (x : BitVec n) :
    bitsOf (k + 1) x = x.getLsbD 0 :: bitsOf k (x >>> 1) := by
  simp [bitsOf, List.range_succ_eq_map, Function.comp_def, Nat.add_comm]

/-- Shifting out the lowest bit, apart from what the polynomial adds. -/
theorem shift_split (reg x : BitVec w) :
    C.shift (reg ^^^ x) = C.take reg (x.getLsbD 0) ^^^ (x >>> 1) := by
  have split : reg ^^^ x = (reg ^^^ low w (x.getLsbD 0)) ^^^ (x ^^^ low w (x.getLsbD 0)) :=
    (xor_poly_cancel _ _ _).symm
  have even : (x ^^^ low w (x.getLsbD 0)).getLsbD 0 = false := by
    by_cases pos : 0 < w
    · simp [low, pos]
    · rw [BitVec.getLsbD_of_ge _ _ (by omega)]
  have rest : C.shift (x ^^^ low w (x.getLsbD 0)) = x >>> 1 := by
    unfold shift
    rw [even, if_neg Bool.false_ne_true]
    apply BitVec.eq_of_getLsbD_eq
    intro i _
    simp [low]
  rw [split, shift_xor, rest]
  rfl

/-- Adding a word of `k` bits and shifting it through is taking its bits in one by one. -/
theorem iterate_shift_eq_run (k : Nat) (reg : BitVec w) {x : BitVec w}
    (short : ∀ i, k ≤ i → x.getLsbD i = false) :
    C.shift^[k] (reg ^^^ x) = C.run reg (bitsOf k x) := by
  induction k generalizing reg x with
  | zero =>
    have zero : x = 0 := BitVec.eq_of_getLsbD_eq fun i _ => by simp [short i (Nat.zero_le i)]
    simp [zero, bitsOf]
  | succ k ih =>
    rw [Function.iterate_succ_apply, shift_split, bitsOf_succ, run_cons]
    apply ih
    intro i hi
    simpa using short (1 + i) (by omega)

/-! ## Bursts -/

theorem take_false (reg : BitVec w) : C.take reg false = C.shift reg := by
  simp [take, low]

theorem run_quiet (reg : BitVec w) {bits : List Bool} (quiet : true ∉ bits) :
    C.run reg bits = C.shift^[bits.length] reg := by
  induction bits generalizing reg with
  | nil => rfl
  | cons b bits ih =>
    simp only [List.mem_cons, not_or] at quiet
    obtain ⟨first, rest⟩ := quiet
    obtain rfl : b = false := by simpa using Ne.symm first
    rw [run_cons, take_false, ih _ rest]
    rfl

/-- A word that fits the register leaves it zero only when it is zero itself. -/
theorem quiet_of_run {bits : List Bool} (short : bits.length ≤ w) (h : C.run 0 bits = 0) :
    true ∉ bits := by
  let x : BitVec w := (BitVec.ofBoolListLE bits).setWidth w
  have past : ∀ i, bits.length ≤ i → bits.getD i false = false := by
    intro i hi
    rw [List.getD_eq_getElem?_getD, List.getElem?_eq_none hi, Option.getD_none]
  have bit : ∀ i, x.getLsbD i = bits.getD i false := by
    intro i
    by_cases hi : i < w
    · simp [x, hi]
    · rw [BitVec.getLsbD_of_ge _ _ (by omega), past i (by omega)]
  have same : bitsOf bits.length x = bits := by
    apply List.ext_getElem
    · simp [bitsOf]
    · intro i _ hi
      simp [bitsOf, bit, hi]
  have shifted := C.iterate_shift_eq_run bits.length 0 fun i hi => (bit i).trans (past i hi)
  have zero : x = 0 := by
    apply C.eq_zero_of_iterate (k := bits.length)
    rw [same, h] at shifted
    simpa using shifted
  intro mem
  obtain ⟨i, hi⟩ := List.mem_iff_getElem?.mp mem
  have := bit i
  rw [zero, List.getD_eq_getElem?_getD, hi] at this
  simp at this

/-- The changed bits lie within `n` neighbouring ones. -/
def Burst (n : Nat) (bits : List Bool) : Prop :=
  ∃ i, ∀ j, bits[j]? = some true → i ≤ j ∧ j < i + n

theorem run_ne_zero_of_burst {bits : List Bool} (changed : true ∈ bits) (burst : Burst w bits) :
    C.run 0 bits ≠ 0 := by
  intro zero
  obtain ⟨i, inside⟩ := burst
  have front : true ∉ bits.take i := by
    intro mem
    obtain ⟨j, hj⟩ := List.mem_iff_getElem?.mp mem
    rw [List.getElem?_take] at hj
    split at hj
    next early =>
      have := (inside j hj).1
      omega
    next => cases hj
  have back : true ∉ (bits.drop i).drop w := by
    intro mem
    obtain ⟨j, hj⟩ := List.mem_iff_getElem?.mp mem
    rw [List.getElem?_drop, List.getElem?_drop] at hj
    have := (inside _ hj).2
    omega
  have split : bits = bits.take i ++ ((bits.drop i).take w ++ (bits.drop i).drop w) := by
    rw [List.take_append_drop, List.take_append_drop]
  rw [split, run_append, run_append, C.run_quiet 0 front, iterate_shift_zero,
    C.run_quiet _ back] at zero
  have middle := C.quiet_of_run (List.length_take_le _ _) (C.eq_zero_of_iterate zero)
  rw [split] at changed
  simp only [List.mem_append] at changed
  tauto

/-! ## Odd changes -/

/-- Whether an odd number of the bits is set. -/
def odd (bits : List Bool) : Bool := bits.foldr (· ^^ ·) false

theorem odd_eq_decide (bits : List Bool) : odd bits = decide (bits.count true % 2 = 1) := by
  induction bits with
  | nil => rfl
  | cons b bits ih =>
    change (b ^^ odd bits) = _
    rw [ih]
    cases b with
    | false => simp
    | true =>
      rw [List.count_cons_self, Bool.true_xor, ← decide_not]
      congr 1
      rw [eq_iff_iff]
      omega

theorem odd_append (xs ys : List Bool) : odd (xs ++ ys) = (odd xs ^^ odd ys) := by
  induction xs with
  | nil => simp [odd]
  | cons x xs ih =>
    change (x ^^ odd (xs ++ ys)) = ((x ^^ odd xs) ^^ odd ys)
    rw [ih, Bool.xor_assoc]

def parity (x : BitVec w) : Bool := odd (bitsOf w x)

theorem parity_xor (x y : BitVec w) : parity (x ^^^ y) = (parity x ^^ parity y) := by
  unfold parity bitsOf
  induction List.range w with
  | nil => rfl
  | cons i is ih =>
    change ((x ^^^ y).getLsbD i ^^ odd (is.map (x ^^^ y).getLsbD)) =
      ((x.getLsbD i ^^ odd (is.map x.getLsbD)) ^^ (y.getLsbD i ^^ odd (is.map y.getLsbD)))
    rw [ih, BitVec.getLsbD_xor]
    cases x.getLsbD i <;> cases y.getLsbD i <;> cases odd (is.map x.getLsbD) <;>
      cases odd (is.map y.getLsbD) <;> rfl

/-- Shifting right drops the lowest bit. -/
theorem parity_shiftRight (x : BitVec w) : parity (x >>> 1) = (x.getLsbD 0 ^^ parity x) := by
  have front : odd (bitsOf (w + 1) x) = (x.getLsbD 0 ^^ parity (x >>> 1)) := by
    rw [bitsOf_succ]
    rfl
  have back : odd (bitsOf (w + 1) x) = parity x := by
    rw [parity, bitsOf, bitsOf, List.range_succ, List.map_append, odd_append]
    simp [odd]
  rw [← back, front, ← Bool.xor_assoc, Bool.xor_self, Bool.false_xor]

theorem parity_low (b : Bool) : parity (low w b) = (decide (0 < w) && b) := by
  have rest : low w b >>> 1 = 0 := by
    apply BitVec.eq_of_getLsbD_eq
    intro i _
    simp [low]
  have none : parity (0 : BitVec w) = false := by
    have twice := parity_xor (0 : BitVec w) 0
    rwa [BitVec.xor_self, Bool.xor_self] at twice
  have drop := parity_shiftRight (low w b)
  rw [rest, none] at drop
  have first : (low w b).getLsbD 0 = (decide (0 < w) && b) := by simp [low]
  rw [first] at drop
  revert drop
  cases decide (0 < w) && b <;> cases parity (low w b) <;> simp

section

variable (even : parity C.poly = true)
include even

theorem parity_take (reg : BitVec w) (b : Bool) : parity (C.take reg b) = (parity reg ^^ b) := by
  have whole : parity (reg ^^^ low w b) = (parity reg ^^ b) := by
    rw [parity_xor, parity_low, decide_eq_true C.width_pos, Bool.true_and]
  rw [take, shift, ← whole]
  cases first : (reg ^^^ low w b).getLsbD 0 with
  | false => simp [parity_shiftRight, first]
  | true => simp [parity_xor, parity_shiftRight, first, even]

theorem parity_run (reg : BitVec w) (bits : List Bool) :
    parity (C.run reg bits) = (parity reg ^^ odd bits) := by
  induction bits generalizing reg with
  | nil => simp [odd]
  | cons b bits ih =>
    rw [run_cons, ih, C.parity_take even, Bool.xor_assoc]
    rfl

theorem run_ne_zero_of_odd {bits : List Bool} (h : bits.count true % 2 = 1) :
    C.run 0 bits ≠ 0 := by
  intro zero
  have sum := C.parity_run even 0 bits
  rw [zero, odd_eq_decide, decide_eq_true h] at sum
  simp at sum

end

end Crc

end RtosXrce.Library
