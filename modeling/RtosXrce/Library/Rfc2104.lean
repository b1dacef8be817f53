import RtosXrce.Library.Bytes

/-!
# HMAC as RFC 2104 states it

Over any hash function with blocks of `B` bytes. A hash function has no value on messages that are
too long for it, and an HMAC has none then either.
-/

namespace RtosXrce.Library.Rfc2104

variable (hash : Bytes → Option Bytes) (B : Nat)

/-- The key as a string of `B` bytes: longer keys are hashed, then zeros are appended. -/
def blockKey (key : Bytes) : Option Bytes := do
  let short ← if B < key.length then hash key else some key
  return short ++ List.replicate (B - short.length) 0

/-- The exclusive or of a key with the byte `c` repeated `B` times. -/
def xorRepeated (c : UInt8) (key : Bytes) : Bytes :=
  List.zipWith (· ^^^ ·) key (List.replicate B c)

/-- `H(K XOR opad, H(K XOR ipad, text))`. -/
def hmac (key text : Bytes) : Option Bytes := do
  let K ← blockKey hash B key
  let inner ← hash (xorRepeated B 0x36 K ++ text)
  hash (xorRepeated B 0x5c K ++ inner)

theorem xorRepeated_eq_map (c : UInt8) {key : Bytes} (h : key.length ≤ B) :
    xorRepeated B c key = key.map (· ^^^ c) := by
  induction key generalizing B with
  | nil => rfl
  | cons x key ih =>
    obtain ⟨B, rfl⟩ : ∃ n, B = n + 1 := ⟨B - 1, by simp only [List.length_cons] at h; omega⟩
    have htail := ih B (by simpa using h)
    simp only [xorRepeated, List.replicate_succ, List.zipWith_cons_cons, List.map_cons] at htail ⊢
    rw [htail]

end RtosXrce.Library.Rfc2104
