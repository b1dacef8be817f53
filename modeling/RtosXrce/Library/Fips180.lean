import Mathlib.Data.Nat.NthRoot.Defs
import Mathlib.Data.Nat.Prime.Nth
import Mathlib.Data.Fin.VecNotation
import RtosXrce.Library.Bytes

/-!
# SHA-256 as FIPS 180-4 states it

A message is a byte string of fewer than `2 ^ 64` bits. The constants are the binary digits of the
roots of the first primes, the message schedule is the recurrence of section 6.2.2 and the digest
is the hash value `H i` after the last block of the padded message.
-/

namespace RtosXrce.Library.Fips180

abbrev Word := BitVec 32

/-- The first 32 bits of the fractional part of the `k`-th root of the `t`-th prime. -/
noncomputable def rootWord (k t : Nat) : Word :=
  BitVec.ofNat 32 (Nat.nthRoot k (Nat.nth Nat.Prime t * 2 ^ (32 * k)))

/-! ## The functions of section 4.1.2 -/

def ch (x y z : Word) : Word := (x &&& y) ^^^ (~~~x &&& z)

def maj (x y z : Word) : Word := (x &&& y) ^^^ (x &&& z) ^^^ (y &&& z)

def bigSigma0 (x : Word) : Word := x.rotateRight 2 ^^^ x.rotateRight 13 ^^^ x.rotateRight 22

def bigSigma1 (x : Word) : Word := x.rotateRight 6 ^^^ x.rotateRight 11 ^^^ x.rotateRight 25

def smallSigma0 (x : Word) : Word := x.rotateRight 7 ^^^ x.rotateRight 18 ^^^ x >>> 3

def smallSigma1 (x : Word) : Word := x.rotateRight 17 ^^^ x.rotateRight 19 ^^^ x >>> 10

/-! ## Compressing one block -/

/-- Word `t` of a block, its first byte the most significant. -/
def messageWord (block : Bytes) (t : Nat) : Word :=
  (block.getD (4 * t) 0).toBitVec ++ (block.getD (4 * t + 1) 0).toBitVec ++
    (block.getD (4 * t + 2) 0).toBitVec ++ (block.getD (4 * t + 3) 0).toBitVec

/-- The message schedule. -/
def W (block : Bytes) (t : Nat) : Word :=
  if t < 16 then messageWord block t
  else
    smallSigma1 (W block (t - 2)) + W block (t - 7) + smallSigma0 (W block (t - 15)) +
      W block (t - 16)

/-- A hash value, or the eight working variables. -/
abbrev HashValue := Fin 8 → Word

noncomputable def initial : HashValue := fun i => rootWord 2 i

noncomputable def round (block : Bytes) (v : HashValue) (t : Nat) : HashValue :=
  let T1 := v 7 + bigSigma1 (v 4) + ch (v 4) (v 5) (v 6) + rootWord 3 t + W block t
  let T2 := bigSigma0 (v 0) + maj (v 0) (v 1) (v 2)
  ![T1 + T2, v 0, v 1, v 2, v 3 + T1, v 4, v 5, v 6]

noncomputable def compress (h : HashValue) (block : Bytes) : HashValue :=
  fun i => h i + (List.range 64).foldl (round block) h i

/-! ## Hashing a message -/

def blockAt (m : Bytes) (i : Nat) : Bytes := (m.drop (64 * i)).take 64

/-- `H i`, after the first `i` blocks of `m`. -/
noncomputable def H (m : Bytes) : Nat → HashValue
  | 0 => initial
  | i + 1 => compress (H m i) (blockAt m i)

/-- The bytes of `w`, the most significant first. -/
def bigEndian (n : Nat) (w : BitVec (8 * n)) : Bytes :=
  List.ofFn fun i : Fin n => ⟨w.extractLsb' (8 * (n - 1 - i)) 8⟩

structure Message where
  bytes : Bytes
  short : 8 * bytes.length < 2 ^ 64

/-- The least number of zero bytes that, after the byte `0x80`, leaves room for the length in the
last block. -/
def zeroBytes (length : Nat) : Nat := (119 - length % 64) % 64

def pad (m : Message) : Bytes :=
  m.bytes ++ [0x80] ++ List.replicate (zeroBytes m.bytes.length) 0 ++
    bigEndian 8 (BitVec.ofNatLT (8 * m.bytes.length) m.short)

/-- The SHA-256 digest. -/
noncomputable def digest (m : Message) : Bytes :=
  (List.ofFn (H (pad m) ((pad m).length / 64))).flatMap (bigEndian 4)

/-- SHA-256 as a function on byte strings; it has no value on longer ones. -/
noncomputable def sha256 (m : Bytes) : Option Bytes :=
  if short : 8 * m.length < 2 ^ 64 then some (digest ⟨m, short⟩) else none

/-- Hash values do not look past their blocks. -/
theorem H_append {m : Bytes} (d : Bytes) {i : Nat} (hi : 64 * i ≤ m.length) :
    H (m ++ d) i = H m i := by
  induction i with
  | zero => rfl
  | succ i ih =>
    have hblock : blockAt (m ++ d) i = blockAt m i := by
      rw [blockAt, List.drop_append_of_le_length (by omega),
        List.take_append_of_le_length (by simp only [List.length_drop]; omega)]
      rfl
    rw [H, H, ih (by omega), hblock]

/-! ## The first primes -/

/-- The sixty-four primes the constants are made from. -/
def primes : List Nat := [
  2, 3, 5, 7, 11, 13, 17, 19, 23, 29, 31, 37, 41, 43, 47, 53, 59, 61, 67, 71, 73, 79, 83, 89, 97,
  101, 103, 107, 109, 113, 127, 131, 137, 139, 149, 151, 157, 163, 167, 173, 179, 181, 191, 193,
  197, 199, 211, 223, 227, 229, 233, 239, 241, 251, 257, 263, 269, 271, 277, 281, 283, 293, 307,
  311]

theorem nth_eq_getD_filter_range (p : Nat → Prop) [DecidablePred p] {n t : Nat}
    (ht : t < ((List.range n).filter p).length) :
    Nat.nth p t = ((List.range n).filter p).getD t 0 := by
  induction n with
  | zero => exact absurd ht (by simp)
  | succ n ih =>
    rw [List.range_succ, List.filter_append] at ht ⊢
    by_cases hlt : t < ((List.range n).filter p).length
    · rw [ih hlt, List.getD_append _ _ _ _ hlt]
    · have hn : p n := by
        by_contra hn
        simp only [hn, decide_false, List.filter_cons_of_neg, Bool.false_eq_true, not_false_eq_true,
          List.filter_nil, List.append_nil] at ht
        exact hlt ht
      have hlast : [n].filter p = [n] := by simp [hn]
      rw [hlast] at ht ⊢
      obtain rfl : t = ((List.range n).filter p).length := by
        rw [List.length_append, List.length_singleton] at ht
        omega
      have hcount : ((List.range n).filter p).length = Nat.count p n := by
        rw [Nat.count_eq_card_filter_range]
        rfl
      rw [List.getD_append_right _ _ _ _ le_rfl, Nat.sub_self, hcount, Nat.nth_count hn]
      rfl

/-- Below `18 ^ 2` trial division by the numbers up to 17 finds the primes. -/
theorem prime_iff_of_lt {p : Nat} (hp : p < 324) :
    p.Prime ↔ 2 ≤ p ∧ ∀ m < 18, 2 ≤ m → m * m ≤ p → ¬ m ∣ p := by
  rw [Nat.prime_def_le_sqrt]
  refine and_congr_right fun _ => ⟨fun h m _ h2 hm => h m h2 (Nat.le_sqrt.mpr hm), ?_⟩
  intro h m h2 hm
  have hle : m * m ≤ p := Nat.le_sqrt.mp hm
  have hlt : m < 18 := by
    by_contra hge
    have hsq : 18 * 18 ≤ m * m := Nat.mul_le_mul (by omega) (by omega)
    omega
  exact h m hlt h2 hle

theorem filter_prime_eq : (List.range 312).filter Nat.Prime = primes := by
  have hfilter : (List.range 312).filter Nat.Prime =
      (List.range 312).filter fun p => 2 ≤ p ∧ ∀ m < 18, 2 ≤ m → m * m ≤ p → ¬ m ∣ p := by
    refine List.filter_congr fun p hp => ?_
    have hlt : p < 312 := List.mem_range.mp hp
    simp only [prime_iff_of_lt (show p < 324 by omega)]
  rw [hfilter]
  decide +kernel

theorem nth_prime_eq {t : Nat} (ht : t < 64) : Nat.nth Nat.Prime t = primes.getD t 0 := by
  rw [← filter_prime_eq]
  exact nth_eq_getD_filter_range Nat.Prime (by rw [filter_prime_eq]; exact ht)

end RtosXrce.Library.Fips180
