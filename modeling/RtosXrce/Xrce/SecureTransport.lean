import RtosXrce.Xrce.Hmac

/-!
# Authenticated link payloads

`xrce/src/secure_transport.c`. A secure payload is a big-endian counter, an eight-byte tag over
counter and inner payload, and the inner payload. The sender numbers its payloads, the receiver
accepts a verified payload only with a counter above the last one it accepted.
-/

namespace RtosXrce.Xrce.Secure

open Library

/-- `XRCE_SECURE_COUNTER_LEN`. -/
abbrev counterLen : Nat := 4

/-- `XRCE_SECURE_TAG_LEN`. -/
abbrev tagLen : Nat := 8

/-- `XRCE_SECURE_OVERHEAD`. -/
abbrev overhead : Nat := counterLen + tagLen

/-- `MAC_INPUT_SCRATCH_LEN`. -/
abbrev macInputScratchLen : Nat := 320

/-- `xrce_secure_ctx_t`, with the bytes `key` points to in place of the pointer. -/
structure Ctx where
  key : Bytes
  sendCounter : UInt32
  lastRecvCounter : UInt32
  haveReceived : Bool
  deriving DecidableEq

/-- `xrce_secure_init`. -/
def Ctx.init (key : Bytes) : Ctx where
  key := key
  sendCounter := 0
  lastRecvCounter := 0
  haveReceived := false

/-- `put_counter_be`. -/
def putCounterBe (counter : UInt32) : Bytes :=
  [(counter >>> 24).toUInt8, (counter >>> 16).toUInt8, (counter >>> 8).toUInt8, counter.toUInt8]

/-- `get_counter_be`. -/
def getCounterBe (input : Bytes) : UInt32 :=
  ((input.getD 0 0).toUInt32 <<< 24) ||| ((input.getD 1 0).toUInt32 <<< 16) |||
    ((input.getD 2 0).toUInt32 <<< 8) ||| (input.getD 3 0).toUInt32

/-- `compute_tag`. -/
def computeTag (key : Bytes) (counter : UInt32) (payload : Bytes) : Bytes :=
  Hmac.hmacSha256 key (putCounterBe counter ++ payload)

namespace Ctx

/-- `xrce_secure_wrap`: the context it leaves and the bytes it writes to `out`, none where it
returns 0. -/
def wrap (ctx : Ctx) (payload : Bytes) (outCap : Nat) : Ctx × Bytes :=
  if payload.length > macInputScratchLen - counterLen ∨ outCap < payload.length + overhead then
    (ctx, [])
  else
    let counter := ctx.sendCounter
    let fullTag := computeTag ctx.key counter payload
    ({ ctx with sendCounter := ctx.sendCounter + 1 },
      putCounterBe counter ++ fullTag.take tagLen ++ payload)

end Ctx

/-- `xrce_secure_result_t`, with `*out_plain` where there is one. -/
inductive Result where
  | ok (plain : Bytes)
  | tooShort
  | badTag
  | replayed
  deriving DecidableEq

def Result.isOk : Result → Bool
  | ok _ => true
  | _ => false

/-- The pointers `recv_tag` and `plain` into a secure payload. -/
def recvTag (securePayload : Bytes) : Bytes := securePayload.drop counterLen

def plain (securePayload : Bytes) : Bytes := securePayload.drop overhead

/-- The comparison loop: the or of the xors of the first `tagLen` bytes. -/
def tagDiff (recv expected : Bytes) : UInt8 :=
  (List.range tagLen).foldl (fun diff i => diff ||| (recv.getD i 0 ^^^ expected.getD i 0)) 0

/-- `xrce_secure_unwrap`. -/
def Ctx.unwrap (ctx : Ctx) (securePayload : Bytes) : Ctx × Result :=
  if securePayload.length < overhead ∨
      securePayload.length - overhead > macInputScratchLen - counterLen then
    (ctx, .tooShort)
  else
    let counter := getCounterBe securePayload
    let expectedTag := computeTag ctx.key counter (plain securePayload)
    if tagDiff (recvTag securePayload) expectedTag ≠ 0 then (ctx, .badTag)
    else if ctx.haveReceived = true ∧ counter ≤ ctx.lastRecvCounter then (ctx, .replayed)
    else
      ({ ctx with lastRecvCounter := counter, haveReceived := true }, .ok (plain securePayload))

end RtosXrce.Xrce.Secure
