import Mathlib.Algebra.Group.Nat.Defs
import Mathlib.Data.List.Basic

/-! # Byte strings and the C memory copy -/

namespace RtosXrce.Library

abbrev Bytes := List UInt8

/-- Overwrite the first `src.length` bytes of `dst`. -/
def memcpy (dst src : Bytes) : Bytes := src ++ dst.drop src.length

@[simp] theorem take_memcpy (dst src : Bytes) : (memcpy dst src).take src.length = src := by
  simp [memcpy]

/-- The byte a shift brings to the low end. -/
theorem setWidth_shift {n : Nat} (w : BitVec n) (k : Nat) :
    (w >>> k).setWidth 8 = w.extractLsb' k 8 := by
  apply BitVec.eq_of_toNat_eq
  simp

end RtosXrce.Library
