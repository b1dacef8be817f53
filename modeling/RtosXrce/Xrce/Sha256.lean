import RtosXrce.Library.Bytes

/-!
# Streaming SHA-256

`xrce/src/sha256.c`. The eight words of the hash value and the working variables of a block share
one record. The context carries the bound its comment promises, `buf_len` below the block length,
which is what makes the padding loop of `final` terminate.
-/

namespace RtosXrce.Xrce.Sha256

open Library

/-- `XRCE_SHA256_DIGEST_LEN`. -/
abbrev digestLen : Nat := 32

/-- `XRCE_SHA256_BLOCK_LEN`. -/
abbrev blockLen : Nat := 64

/-- The round constants. -/
def K : List UInt32 := [
  0x428a2f98, 0x71374491, 0xb5c0fbcf, 0xe9b5dba5, 0x3956c25b, 0x59f111f1,
  0x923f82a4, 0xab1c5ed5, 0xd807aa98, 0x12835b01, 0x243185be, 0x550c7dc3,
  0x72be5d74, 0x80deb1fe, 0x9bdc06a7, 0xc19bf174, 0xe49b69c1, 0xefbe4786,
  0x0fc19dc6, 0x240ca1cc, 0x2de92c6f, 0x4a7484aa, 0x5cb0a9dc, 0x76f988da,
  0x983e5152, 0xa831c66d, 0xb00327c8, 0xbf597fc7, 0xc6e00bf3, 0xd5a79147,
  0x06ca6351, 0x14292967, 0x27b70a85, 0x2e1b2138, 0x4d2c6dfc, 0x53380d13,
  0x650a7354, 0x766a0abb, 0x81c2c92e, 0x92722c85, 0xa2bfe8a1, 0xa81a664b,
  0xc24b8b70, 0xc76c51a3, 0xd192e819, 0xd6990624, 0xf40e3585, 0x106aa070,
  0x19a4c116, 0x1e376c08, 0x2748774c, 0x34b0bcb5, 0x391c0cb3, 0x4ed8aa4a,
  0x5b9cca4f, 0x682e6ff3, 0x748f82ee, 0x78a5636f, 0x84c87814, 0x8cc70208,
  0x90befffa, 0xa4506ceb, 0xbef9a3f7, 0xc67178f2]

/-- `rotr`. -/
def rotr (x n : UInt32) : UInt32 := (x >>> n) ||| (x <<< (32 - n))

/-- The words `state[0], …, state[7]`. -/
structure Words where
  a : UInt32
  b : UInt32
  c : UInt32
  d : UInt32
  e : UInt32
  f : UInt32
  g : UInt32
  h : UInt32
  deriving DecidableEq

/-- Word `t` of a block, big-endian. -/
def blockWord (block : Bytes) (t : Nat) : UInt32 :=
  ((block.getD (t * 4) 0).toUInt32 <<< 24) ||| ((block.getD (t * 4 + 1) 0).toUInt32 <<< 16) |||
    ((block.getD (t * 4 + 2) 0).toUInt32 <<< 8) ||| (block.getD (t * 4 + 3) 0).toUInt32

/-- One turn of the schedule loop: append `w[t]`, where `t` words are there already. -/
def extend (w : List UInt32) (t : Nat) : List UInt32 :=
  let w15 := w.getD (t - 15) 0
  let w2 := w.getD (t - 2) 0
  let s0 := rotr w15 7 ^^^ rotr w15 18 ^^^ (w15 >>> 3)
  let s1 := rotr w2 17 ^^^ rotr w2 19 ^^^ (w2 >>> 10)
  w ++ [w.getD (t - 16) 0 + s0 + w.getD (t - 7) 0 + s1]

/-- The 64 words of the message schedule. -/
def schedule (block : Bytes) : List UInt32 :=
  (List.range' 16 48).foldl extend ((List.range 16).map (blockWord block))

/-- One turn of the compression loop. -/
def round (w : List UInt32) (v : Words) (t : Nat) : Words :=
  let S1 := rotr v.e 6 ^^^ rotr v.e 11 ^^^ rotr v.e 25
  let ch := (v.e &&& v.f) ^^^ (~~~v.e &&& v.g)
  let temp1 := v.h + S1 + ch + K.getD t 0 + w.getD t 0
  let S0 := rotr v.a 2 ^^^ rotr v.a 13 ^^^ rotr v.a 22
  let maj := (v.a &&& v.b) ^^^ (v.a &&& v.c) ^^^ (v.b &&& v.c)
  let temp2 := S0 + maj
  { h := v.g, g := v.f, f := v.e, e := v.d + temp1, d := v.c, c := v.b, b := v.a,
    a := temp1 + temp2 }

/-- `process_block`. -/
def processBlock (state : Words) (block : Bytes) : Words :=
  let v := (List.range 64).foldl (round (schedule block)) state
  { a := state.a + v.a, b := state.b + v.b, c := state.c + v.c, d := state.d + v.d,
    e := state.e + v.e, f := state.f + v.f, g := state.g + v.g, h := state.h + v.h }

/-- `xrce_sha256_ctx_t`. -/
structure Ctx where
  state : Words
  totalLen : UInt64
  buf : Vector UInt8 blockLen
  bufLen : Nat
  bufLen_lt : bufLen < blockLen

/-- `xrce_sha256_init`; the buffer keeps whatever it held. -/
def init (stale : Vector UInt8 blockLen) : Ctx where
  state :=
    { a := 0x6a09e667, b := 0xbb67ae85, c := 0x3c6ef372, d := 0xa54ff53a,
      e := 0x510e527f, f := 0x9b05688c, g := 0x1f83d9ab, h := 0x5be0cd19 }
  totalLen := 0
  buf := stale
  bufLen := 0
  bufLen_lt := by decide

/-- `memcpy(buf + off, src, src.length)`. -/
def copyAt (buf : Vector UInt8 blockLen) (off : Nat) (src : Bytes) : Vector UInt8 blockLen :=
  Vector.ofFn fun i =>
    if off ≤ i.val ∧ i.val < off + src.length then src.getD (i.val - off) 0 else buf[i]

/-- The `while` loop of `xrce_sha256_update`: the hash value after the whole blocks, and the
bytes left over. -/
def blocks (state : Words) (data : Bytes) : Words × Bytes :=
  if data.length ≥ blockLen then
    blocks (processBlock state (data.take blockLen)) (data.drop blockLen)
  else (state, data)
termination_by data.length
decreasing_by simp [blockLen] at *; omega

theorem length_blocks (state : Words) (data : Bytes) : (blocks state data).2.length < blockLen := by
  fun_induction blocks state data with
  | case1 state data h ih => exact ih
  | case2 state data h => exact Nat.lt_of_not_le h

/-- The part of `xrce_sha256_update` that starts with an empty buffer: whole blocks straight from
`data`, the rest into the buffer. -/
def absorb (ctx : Ctx) (data : Bytes) : Ctx :=
  let done := blocks ctx.state data
  if 0 < done.2.length then
    { ctx with
      state := done.1
      buf := copyAt ctx.buf 0 done.2
      bufLen := done.2.length
      bufLen_lt := length_blocks ctx.state data }
  else { ctx with state := done.1 }

/-- `xrce_sha256_update`. -/
def update (ctx : Ctx) (data : Bytes) : Ctx :=
  let ctx := { ctx with totalLen := ctx.totalLen + UInt64.ofNat data.length }
  if 0 < ctx.bufLen then
    let need := blockLen - ctx.bufLen
    let take := if data.length < need then data.length else need
    let buf := copyAt ctx.buf ctx.bufLen (data.take take)
    let rest := data.drop take
    if full : ctx.bufLen + take = blockLen then
      absorb { ctx with
        state := processBlock ctx.state buf.toList, buf := buf, bufLen := 0,
        bufLen_lt := by decide } rest
    else
      absorb { ctx with
        buf := buf
        bufLen := ctx.bufLen + take
        bufLen_lt := by
          have h : ctx.bufLen < blockLen := ctx.bufLen_lt
          have ht : take ≤ need := by grind
          omega } rest
  else absorb ctx data

theorem blocks_of_lt {state : Words} {data : Bytes} (h : data.length < blockLen) :
    blocks state data = (state, data) := by
  rw [blocks]
  exact if_neg (Nat.not_le.mpr h)

theorem absorb_bufLen_of_lt {ctx : Ctx} {data : Bytes} (h : data.length < blockLen)
    (hd : data ≠ []) : (absorb ctx data).bufLen = data.length := by
  have hpos : 0 < data.length := List.length_pos_iff.mpr hd
  simp [absorb, blocks_of_lt h, hpos]

theorem absorb_nil (ctx : Ctx) : absorb ctx [] = ctx := by
  have hnone : blocks ctx.state [] = (ctx.state, []) := blocks_of_lt (by decide)
  simp [absorb, hnone]

/-- A one-byte update moves the fill level on by one, around the block length. -/
theorem update_one_bufLen (ctx : Ctx) (b : UInt8) :
    (update ctx [b]).bufLen = (ctx.bufLen + 1) % blockLen := by
  have hlt := ctx.bufLen_lt
  by_cases hpos : 0 < ctx.bufLen
  · have htake : (if [b].length < blockLen - ctx.bufLen then [b].length else blockLen - ctx.bufLen)
        = 1 := by
      simp only [List.length_singleton]
      split <;> omega
    simp only [update, if_pos hpos, htake, List.drop_one, List.tail_cons, absorb_nil]
    split
    case isTrue full => simp [full]
    case isFalse notFull =>
      have hmod : (ctx.bufLen + 1) % blockLen = ctx.bufLen + 1 := Nat.mod_eq_of_lt (by omega)
      exact hmod.symm
  · have hzero : ctx.bufLen = 0 := by omega
    simp [update, hzero, absorb_bufLen_of_lt, blockLen]

/-- The padding loop of `xrce_sha256_final`. -/
def padZeros (ctx : Ctx) : Ctx :=
  if ctx.bufLen ≠ blockLen - 8 then
    let padded := update ctx [0]
    padZeros { padded with totalLen := padded.totalLen - 1 }
  else ctx
termination_by (blockLen - 8 + blockLen - ctx.bufLen) % blockLen
decreasing_by
  have hlt := ctx.bufLen_lt
  simp only [update_one_bufLen, blockLen] at *
  omega

/-- `len_bytes`: the bit length, big-endian. -/
def lenBytes (bitLen : UInt64) : Bytes :=
  (List.range 8).map fun i => (bitLen >>> (56 - 8 * UInt64.ofNat i)).toUInt8

/-- The four bytes of a word, most significant first. -/
def wordBytes (w : UInt32) : Bytes :=
  [(w >>> 24).toUInt8, (w >>> 16).toUInt8, (w >>> 8).toUInt8, w.toUInt8]

def Words.toList (v : Words) : List UInt32 := [v.a, v.b, v.c, v.d, v.e, v.f, v.g, v.h]

/-- `xrce_sha256_final`: the context it leaves and the digest it writes. -/
def final (ctx : Ctx) : Ctx × Bytes :=
  let bitLen := ctx.totalLen * 8
  let ctx := update ctx [0x80]
  let ctx := padZeros { ctx with totalLen := ctx.totalLen - 1 }
  let ctx := update ctx (lenBytes bitLen)
  (ctx, ctx.state.toList.flatMap wordBytes)

/-- `xrce_sha256`; its local context starts out with no particular contents. -/
def sha256 (data : Bytes) : Bytes :=
  (final (update (init (Vector.replicate blockLen 0)) data)).2

end RtosXrce.Xrce.Sha256
