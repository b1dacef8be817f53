import RtosXrce.Xrce.Sha256

/-!
# HMAC-SHA256

`xrce/src/hmac.c`. Both hashes run in one context, so the outer one starts on the buffer the
inner one left.
-/

namespace RtosXrce.Xrce.Hmac

open Library Sha256

/-- `key_block`: a long key is hashed first, every key is filled up with zeros. -/
def keyBlock (key : Bytes) : Bytes :=
  if key.length > blockLen then
    sha256 key ++ List.replicate (blockLen - digestLen) 0
  else key ++ List.replicate (blockLen - key.length) 0

/-- `ipad` and `opad`: the key block, every byte xored with `c`. -/
def pad (key : Bytes) (c : UInt8) : Bytes :=
  (keyBlock key).map (· ^^^ c)

/-- `xrce_hmac_sha256`. -/
def hmacSha256 (key data : Bytes) : Bytes :=
  let ctx := init (Vector.replicate blockLen 0)
  let ctx := update ctx (pad key 0x36)
  let ctx := update ctx data
  let inner := final ctx
  let ctx := init inner.1.buf
  let ctx := update ctx (pad key 0x5c)
  let ctx := update ctx inner.2
  (final ctx).2

theorem length_hmacSha256 (key data : Bytes) : (hmacSha256 key data).length = digestLen := rfl

end RtosXrce.Xrce.Hmac
