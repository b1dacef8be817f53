import Mathlib.Data.Nat.ModEq

/-!
# Windows of 16-bit sequence numbers

Sequence numbers wrap at `2^16`, so "between" and "before" only make sense relative to a lower
end. A half-open window `lo + 1, …, hi` is described by distances from `lo`; a ring with a
number of cells that divides `2^16` gives two numbers the same cell exactly when their distance
is a multiple of the ring size.
-/

namespace RtosXrce.Library

/-- `q` is one of `lo + 1, …, hi`, counted upwards from `lo`. -/
def InWindow (lo hi q : UInt16) : Prop :=
  0 < (q - lo).toNat ∧ (q - lo).toNat ≤ (hi - lo).toNat

instance (lo hi q : UInt16) : Decidable (InWindow lo hi q) :=
  inferInstanceAs (Decidable (_ ∧ _))

/-- Serial-number order: `x` is at most half the number space behind `y`. -/
def AtMost (x y : UInt16) : Prop := (y - x).toNat < 2 ^ 15

/-- `x` is strictly behind `y` in serial-number order. -/
def Behind (x y : UInt16) : Prop := x ≠ y ∧ AtMost x y

instance (x y : UInt16) : Decidable (AtMost x y) := inferInstanceAs (Decidable (_ < _))
instance (x y : UInt16) : Decidable (Behind x y) := inferInstanceAs (Decidable (_ ∧ _))

theorem toNat_sub_eq (x y : UInt16) : (x - y).toNat = (65536 - y.toNat + x.toNat) % 65536 :=
  UInt16.toNat_sub x y

theorem toNat_add_eq (x y : UInt16) : (x + y).toNat = (x.toNat + y.toNat) % 65536 :=
  UInt16.toNat_add x y

theorem toNat_lt (x : UInt16) : x.toNat < 65536 := x.toNat_lt

theorem ext_toNat {x y : UInt16} (h : x.toNat = y.toNat) : x = y := UInt16.toNat_inj.mp h

theorem distance_self (x : UInt16) : (x - x).toNat = 0 := by simp

/-- Distances along the number circle add up modulo `2^16`. -/
theorem distance_add (x y z : UInt16) :
    (x - z).toNat = ((x - y).toNat + (y - z).toNat) % 65536 := by
  rw [← toNat_add_eq]
  congr 1
  grind

theorem distance_succ (x y : UInt16) : (x + 1 - y).toNat = (1 + (x - y).toNat) % 65536 := by
  rw [distance_add (x + 1) x y]
  congr 2
  have : x + 1 - x = 1 := by grind
  rw [this]
  rfl

/-- The distance to a number the walk has not met yet shrinks by one when the walk advances. -/
theorem distance_walk {seq stop : UInt16} (h : seq ≠ stop) :
    (stop - (seq + 1)).toNat + 1 = (stop - seq).toNat := by
  have h1 := distance_add stop (seq + 1) seq
  have h2 := distance_succ seq seq
  have h3 : (stop - seq).toNat ≠ 0 := by
    intro h0
    have : stop - seq = 0 := ext_toNat h0
    exact h (by grind)
  have h4 := toNat_lt (stop - (seq + 1))
  rw [distance_self] at h2
  omega

/-- Two numbers share a ring cell exactly when their distance is a multiple of its size. -/
theorem cell_eq_iff {n : Nat} (hn : n ∣ 65536) (x y : UInt16) :
    x.toNat % n = y.toNat % n ↔ (x - y).toNat % n = 0 := by
  obtain ⟨k, hk⟩ := hn
  have hx := toNat_lt x
  have hy := toNat_lt y
  have key : (x - y).toNat ≡ 65536 - y.toNat + x.toNat [MOD n] := by
    rw [toNat_sub_eq]
    exact (Nat.mod_modEq _ 65536).of_dvd ⟨k, hk⟩
  have wrap : y.toNat + (65536 - y.toNat + x.toNat) = x.toNat + n * k := by omega
  have hsum : y.toNat + (x - y).toNat ≡ x.toNat [MOD n] := by
    calc y.toNat + (x - y).toNat ≡ y.toNat + (65536 - y.toNat + x.toNat) [MOD n] :=
          key.add_left _
      _ = x.toNat + n * k := wrap
      _ ≡ x.toNat + 0 [MOD n] := Nat.ModEq.add_left _ (Nat.modEq_zero_iff_dvd.mpr ⟨k, rfl⟩)
  constructor
  · intro h
    have : y.toNat + (x - y).toNat ≡ y.toNat + 0 [MOD n] := hsum.trans h
    exact Nat.ModEq.add_left_cancel' _ this
  · intro h
    have : y.toNat + (x - y).toNat ≡ y.toNat + 0 [MOD n] := Nat.ModEq.add_left _ h
    exact hsum.symm.trans this

/-- The upper end of a nonempty window lies in it. -/
theorem InWindow.upper {lo hi : UInt16} (h : 0 < (hi - lo).toNat) : InWindow lo hi hi :=
  ⟨h, le_rfl⟩

/-- A window reaches one further number when its upper end advances. -/
theorem inWindow_succ {lo hi q : UInt16} (room : (hi - lo).toNat < 65535) :
    InWindow lo (hi + 1) q ↔ q = hi + 1 ∨ InWindow lo hi q := by
  have top := distance_succ hi lo
  unfold InWindow
  constructor
  · intro h
    by_cases eq : q = hi + 1
    · exact Or.inl eq
    · have ne : (q - lo).toNat ≠ (hi + 1 - lo).toNat := fun e =>
        eq (by have := ext_toNat e; grind)
      exact Or.inr (by omega)
  · rintro (rfl | h) <;> omega

/-- The numbers `lo + 1, …, hi` in the order a walk from `lo` meets them. -/
def window (lo hi : UInt16) : List UInt16 :=
  (List.range (hi - lo).toNat).map fun i => lo + 1 + UInt16.ofNat i

@[simp] theorem window_self (lo : UInt16) : window lo lo = [] := by simp [window]

theorem window_walk {lo hi : UInt16} (h : lo ≠ hi) :
    window lo hi = (lo + 1) :: window (lo + 1) hi := by
  have shift : ∀ i : Nat, lo + 1 + (UInt16.ofNat i + 1) = lo + 1 + 1 + UInt16.ofNat i := by
    intro i
    grind
  unfold window
  rw [← distance_walk h, List.range_succ_eq_map]
  simp [Function.comp_def, shift]

theorem mem_window {lo hi q : UInt16} : q ∈ window lo hi ↔ InWindow lo hi q := by
  have top := toNat_lt (hi - lo)
  simp only [window, List.mem_map, List.mem_range]
  constructor
  · rintro ⟨i, near, rfl⟩
    have split : lo + 1 + UInt16.ofNat i - lo = UInt16.ofNat i + 1 := by grind
    have small : (UInt16.ofNat i).toNat = i :=
      UInt16.toNat_ofNat_of_lt' (by change i < 65536; omega)
    have next := toNat_add_eq (UInt16.ofNat i) 1
    unfold InWindow
    rw [split, next, small]
    change 0 < (i + 1) % 65536 ∧ (i + 1) % 65536 ≤ _
    omega
  · rintro ⟨pos, le⟩
    refine ⟨(q - lo).toNat - 1, by omega, ?_⟩
    have back : UInt16.ofNat ((q - lo).toNat - 1) + 1 = q - lo := by
      rw [← UInt16.ofNat_one, ← UInt16.ofNat_add, Nat.sub_add_cancel pos, UInt16.ofNat_toNat]
    grind

end RtosXrce.Library
