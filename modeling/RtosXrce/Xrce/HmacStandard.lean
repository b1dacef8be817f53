import RtosXrce.Library.Rfc2104
import RtosXrce.Xrce.Hmac
import RtosXrce.Xrce.Sha256Standard

/-!
# The message authentication code is the standard's

Each of the two hashes of `hmacSha256` is a stream of two updates, whatever the shared context still
holds, and a stream yields the standard's digest of what it was given.
-/

namespace RtosXrce.Xrce.Hmac

open Library Sha256

theorem fips180_sha256_eq_streamed (stale : Vector UInt8 blockLen) (chunks : List Bytes)
    (short : chunks.flatten.length < 2 ^ 61) :
    Fips180.sha256 chunks.flatten = some (streamed stale chunks) := by
  have hshort : 8 * chunks.flatten.length < 2 ^ 64 := by omega
  rw [Fips180.sha256, dif_pos hshort, streamed_spec stale chunks hshort]

/-- The one-shot function is a stream of one update. -/
theorem fips180_sha256_eq (m : Bytes) (short : m.length < 2 ^ 61) :
    Fips180.sha256 m = some (sha256 m) := by
  have hone := fips180_sha256_eq_streamed (Vector.replicate blockLen 0) [m] (by simpa using short)
  rw [List.flatten_singleton] at hone
  exact hone

theorem length_sha256 (m : Bytes) : (sha256 m).length = digestLen := rfl

theorem length_keyBlock (key : Bytes) : (keyBlock key).length = blockLen := by
  unfold keyBlock
  split
  · rw [List.length_append, length_sha256, List.length_replicate]
    rfl
  · rw [List.length_append, List.length_replicate]
    omega

theorem blockKey_eq (key : Bytes) (short : key.length < 2 ^ 61) :
    Rfc2104.blockKey Fips180.sha256 blockLen key = some (keyBlock key) := by
  unfold Rfc2104.blockKey keyBlock
  by_cases hlong : key.length > blockLen
  · rw [if_pos hlong, if_pos hlong, fips180_sha256_eq key short]
    rfl
  · rw [if_neg hlong, if_neg hlong]
    rfl

theorem xorRepeated_keyBlock (c : UInt8) (key : Bytes) :
    Rfc2104.xorRepeated blockLen c (keyBlock key) = pad key c :=
  Rfc2104.xorRepeated_eq_map blockLen c (length_keyBlock key).le

theorem length_pad (key : Bytes) (c : UInt8) : (pad key c).length = blockLen := by
  rw [pad, List.length_map, length_keyBlock]

/-- `xrce_hmac_sha256` computes HMAC with SHA-256, for keys and messages of every length the hash
function is defined on. -/
theorem hmac_eq_hmacSha256 (key data : Bytes) (hkey : key.length < 2 ^ 61)
    (hdata : blockLen + data.length < 2 ^ 61) :
    Rfc2104.hmac Fips180.sha256 blockLen key data = some (hmacSha256 key data) := by
  have hinner : Fips180.sha256 (pad key 0x36 ++ data) =
      some (streamed (Vector.replicate blockLen 0) [pad key 0x36, data]) := by
    have h := fips180_sha256_eq_streamed (Vector.replicate blockLen 0) [pad key 0x36, data]
      (by simpa [length_pad] using hdata)
    simpa using h
  -- the outer hash starts on whatever the inner one left in the buffer
  have houter (stale : Vector UInt8 blockLen) (inner : Bytes) (hlen : inner.length = digestLen) :
      Fips180.sha256 (pad key 0x5c ++ inner) = some (streamed stale [pad key 0x5c, inner]) := by
    have h := fips180_sha256_eq_streamed stale [pad key 0x5c, inner]
      (by simp [length_pad, hlen, blockLen, digestLen])
    simpa using h
  rw [Rfc2104.hmac, blockKey_eq key hkey]
  simp only [Option.bind_eq_bind, Option.bind_some, xorRepeated_keyBlock, hinner]
  exact houter _ _ rfl

/-- Keys of exactly one block and of one byte more, which take different branches. -/
theorem hmac_eq_hmacSha256_block_keys :
    let block : Bytes := List.replicate 64 0xaa
    let longer : Bytes := List.replicate 65 0xaa
    Rfc2104.hmac Fips180.sha256 blockLen block [1, 2, 3] = some (hmacSha256 block [1, 2, 3]) ∧
      Rfc2104.hmac Fips180.sha256 blockLen longer [1, 2, 3] =
        some (hmacSha256 longer [1, 2, 3]) := by
  intro block longer
  exact ⟨hmac_eq_hmacSha256 block _ (by decide) (by decide),
    hmac_eq_hmacSha256 longer _ (by decide) (by decide)⟩

end RtosXrce.Xrce.Hmac
