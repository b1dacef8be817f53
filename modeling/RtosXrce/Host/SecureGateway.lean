import RtosXrce.Xrce.SecureCounters
import RtosXrce.Xrce.SerialStreams

/-!
# The gateway between a secured board and a plain agent

`host/secure_gateway.c`. Each direction has a serial reader and a context of its own: frames from
the board are unwrapped and framed again for the agent, frames from the agent are wrapped and
framed for the board. The bytes of the two links come in any order, one a turn of the loop.
-/

namespace RtosXrce.Host

open Library Xrce Xrce.Serial Xrce.Secure

namespace SecureGateway

/-- `MAX_PAYLOAD`. -/
abbrev maxPayload : Nat := 512

/-- `ADDR`. -/
abbrev addr : UInt8 := 0x00

/-- What `process_secure_frame` makes of a frame, as it logs it; `out` is what is written on. -/
inductive Processed where
  | rejected (res : Secure.Result)
  | tooLarge (plainLen : Nat)
  | forwarded (out : Bytes)

/-- The part of `process_secure_frame` behind `xrce_secure_unwrap`. -/
def reencode (outCap : Nat) : Secure.Result → Processed
  | .ok plain =>
    let (encodedLen, out) := frameEncode outCap addr addr plain
    if encodedLen = 0 then .tooLarge plain.length else .forwarded (out.take encodedLen)
  | res => .rejected res

/-- `process_secure_frame`. -/
def processSecureFrame (outCap : Nat) (ctx : Ctx) (framePayload : Bytes) : Ctx × Processed :=
  let (ctx, res) := ctx.unwrap framePayload
  (ctx, reencode outCap res)

/-- The part of `wrap_and_encode` behind `xrce_secure_wrap`: the bytes up to the returned length. -/
def encodeWrapped (outCap : Nat) (wrapped : Bytes) : Bytes :=
  if wrapped.length = 0 then [] else
  let (len, out) := frameEncode outCap addr addr wrapped
  out.take len

/-- `wrap_and_encode`. -/
def wrapAndEncode (outCap : Nat) (ctx : Ctx) (plain : Bytes) : Ctx × Bytes :=
  let (ctx, wrapped) := ctx.wrap plain (maxPayload + overhead)
  (ctx, encodeWrapped outCap wrapped)

/-- A link that is read: its reader, its context, and what came of the frames so far. -/
structure Direction (β : Type) where
  reader : Reader
  ctx : Ctx
  handled : List β

namespace Direction

variable {β : Type} (handle : Ctx → Bytes → Ctx × β)

/-- One byte of a link; malformed frames are dropped. -/
def feed (d : Direction β) (byte : UInt8) : Direction β :=
  let (reader, res) := d.reader.feed byte
  match res with
  | .frameReady _ frameLen =>
    let (ctx, b) := handle d.ctx (reader.payloadBuf.take frameLen.toNat)
    { reader, ctx, handled := d.handled ++ [b] }
  | _ => { d with reader }

def feedAll (d : Direction β) (bytes : Bytes) : Direction β := bytes.foldl (feed handle) d

/-- The payloads of the frames that become ready. -/
def payloads (r : Reader) (bytes : Bytes) : List Bytes :=
  (r.feedAll bytes).2.filterMap Reader.Event.payload?

/-- The frames are handled one after the other as they become ready. -/
theorem handled_feedAll (d : Direction β) (bytes : Bytes) :
    (feedAll handle d bytes).handled =
      d.handled ++ outputs handle d.ctx (payloads d.reader bytes) := by
  induction bytes generalizing d with
  | nil => simp [feedAll, payloads, Reader.feedAll, outputs]
  | cons byte bytes ih =>
    have hrest := ih (feed handle d byte)
    rw [feedAll, List.foldl_cons, ← feedAll, hrest]
    simp only [payloads, Reader.feedAll, feed]
    rcases hfeed : d.reader.feed byte with ⟨reader, res⟩
    cases res with
    | inProgress => rfl
    | error => rfl
    | frameReady src len =>
      simp [Reader.event, Reader.Event.payload?, outputs]

end Direction

/-- A byte that `read` returns in the loop of `main`, and the link it is from. -/
inductive Input where
  | board (byte : UInt8)
  | agent (byte : UInt8)

end SecureGateway

open SecureGateway

/-- The two directions of `main`: up to the agent and down to the board. -/
structure SecureGateway where
  uplink : Direction Processed
  downlink : Direction Bytes

namespace SecureGateway

/-- The set-up in `main`. -/
def init (key : Bytes) : SecureGateway where
  uplink :=
    { reader := .init addr (.replicate (maxPayload + overhead) 0) (maxPayload + overhead)
      ctx := .init key
      handled := [] }
  downlink :=
    { reader := .init addr (.replicate maxPayload 0) maxPayload
      ctx := .init key
      handled := [] }

/-- One turn of the loop of `main`. -/
def step (g : SecureGateway) : Input → SecureGateway
  | .board byte =>
    { g with uplink := g.uplink.feed (processSecureFrame (maxEncodedLen maxPayload)) byte }
  | .agent byte =>
    { g with
      downlink := g.downlink.feed (wrapAndEncode (maxEncodedLen (maxPayload + overhead))) byte }

def run (g : SecureGateway) (inputs : List Input) : SecureGateway := inputs.foldl step g

/-- What was written to the agent. -/
def toAgent (g : SecureGateway) : Bytes :=
  g.uplink.handled.flatMap fun
    | .forwarded out => out
    | _ => []

/-- What was written to the board. -/
def toBoard (g : SecureGateway) : Bytes := g.downlink.handled.flatten

/-! ## The two links apart -/

/-- The bytes from the board. -/
def boardBytes (inputs : List Input) : Bytes :=
  inputs.filterMap fun
    | .board byte => some byte
    | .agent _ => none

/-- The bytes from the agent. -/
def agentBytes (inputs : List Input) : Bytes :=
  inputs.filterMap fun
    | .board _ => none
    | .agent byte => some byte

theorem boardBytes_append (up down : Bytes) :
    boardBytes (up.map .board ++ down.map .agent) = up := by
  simp [boardBytes]

theorem agentBytes_append (up down : Bytes) :
    agentBytes (up.map .board ++ down.map .agent) = down := by
  simp [agentBytes]

theorem uplink_run (g : SecureGateway) (inputs : List Input) :
    (g.run inputs).uplink =
      g.uplink.feedAll (processSecureFrame (maxEncodedLen maxPayload)) (boardBytes inputs) := by
  induction inputs generalizing g with
  | nil => rfl
  | cons input inputs ih =>
    have hrest := ih (g.step input)
    cases input with
    | board byte => exact hrest
    | agent byte => exact hrest

theorem downlink_run (g : SecureGateway) (inputs : List Input) :
    (g.run inputs).downlink =
      g.downlink.feedAll (wrapAndEncode (maxEncodedLen (maxPayload + overhead)))
        (agentBytes inputs) := by
  induction inputs generalizing g with
  | nil => rfl
  | cons input inputs ih =>
    have hrest := ih (g.step input)
    cases input with
    | board byte => exact hrest
    | agent byte => exact hrest

/-! ## Frames on the links -/

/-- The frame of `payload` from `src` to the gateway's address, encoded with room to spare. -/
def encoded (src : UInt8) (payload : Bytes) : Bytes :=
  (frameEncode (maxEncodedLen payload.length) src addr payload).2

theorem encoded_eq_wire (src : UInt8) (payload : Bytes) :
    encoded src payload = wire src addr payload := by
  rw [encoded, frameEncode_of_le (length_wire_le src addr payload)]

theorem length_encoded_ne_zero (src : UInt8) (payload : Bytes) :
    (encoded src payload).length ≠ 0 := by
  rw [encoded_eq_wire, wire, List.length_cons]
  exact Nat.succ_ne_zero _

theorem frameEncode_eq_encoded {outCap : Nat} {payload : Bytes}
    (h : maxEncodedLen payload.length ≤ outCap) :
    frameEncode outCap addr addr payload =
      ((encoded addr payload).length, encoded addr payload) := by
  rw [encoded_eq_wire, frameEncode_of_le (Nat.le_trans (length_wire_le addr addr payload) h)]

theorem maxEncodedLen_mono {m n : Nat} (h : m ≤ n) : maxEncodedLen m ≤ maxEncodedLen n := by
  unfold maxEncodedLen
  omega

theorem reencode_ok {plain : Bytes} (h : plain.length ≤ maxPayload) :
    reencode (maxEncodedLen maxPayload) (.ok plain) = .forwarded (encoded addr plain) := by
  rw [reencode, frameEncode_eq_encoded (maxEncodedLen_mono h)]
  simp only [if_neg (length_encoded_ne_zero addr plain), List.take_length]

/-- What verifies is short enough to be framed again. -/
theorem processSecureFrame_ne_tooLarge (ctx : Ctx) (framePayload : Bytes) (n : Nat) :
    (processSecureFrame (maxEncodedLen maxPayload) ctx framePayload).2 ≠ .tooLarge n := by
  intro hlarge
  change reencode _ (ctx.unwrap framePayload).2 = _ at hlarge
  cases hres : (ctx.unwrap framePayload).2 with
  | ok plain =>
    obtain ⟨⟨-, hlen, -⟩, -, rfl⟩ := Ctx.unwrap_ok_iff.mp hres
    have hshort : (Secure.plain framePayload).length ≤ maxPayload := by
      rw [Secure.plain, List.length_drop]
      exact Nat.le_trans hlen (by decide)
    rw [hres, reencode_ok hshort] at hlarge
    cases hlarge
  | tooShort | badTag | replayed => rw [hres] at hlarge; cases hlarge

/-- The frames of a line addressed to a reader are handled one after the other. -/
theorem handled_line {β : Type} (handle : Ctx → Bytes → Ctx × β) {buf : Bytes} {cap : Nat}
    (hbuf : buf.length = cap) (ctx : Ctx) (src : UInt8) {payloads : List Bytes}
    (short : ∀ p ∈ payloads, p.length ≤ 65535 ∧ p.length ≤ cap) :
    (Direction.feedAll handle ⟨.init addr buf cap, ctx, []⟩
      (payloads.flatMap (encoded src))).handled = outputs handle ctx payloads := by
  subst hbuf
  have hline : payloads.flatMap (encoded src) = payloads.flatMap (wire src addr) :=
    List.flatMap_congr fun p _ => encoded_eq_wire src p
  rw [Direction.handled_feedAll, Direction.payloads, hline,
    (feedAll_line (tracks_init addr buf) src short).2]
  rfl

/-! ## Up -/

/-- What a board puts on the line: each payload wrapped and framed, with room to spare. -/
def securedLine (src : UInt8) (ctx : Ctx) (payloads : List Bytes) : Bytes :=
  (ctx.wrapAll (payloads.map fun p => (p, p.length + overhead))).flatMap (encoded src)

theorem wrapAll_eq_frames {payloads : List Bytes}
    (h : ∀ p ∈ payloads, p.length ≤ macInputScratchLen - counterLen) (key : Bytes) :
    (Ctx.init key).wrapAll (payloads.map fun p => (p, p.length + overhead)) =
      frames key 0 payloads := by
  apply List.ext_getElem?
  intro i
  rw [Ctx.getElem?_wrapAll, getElem?_frames]
  · simp [Ctx.init, Function.comp_def]
  · intro call hcall
    obtain ⟨p, hp, rfl⟩ := List.mem_map.mp hcall
    exact ⟨h p hp, Nat.le_refl _⟩

/-- Unwrapping and framing again is unwrapping a list and framing what comes out. -/
theorem outputs_processSecureFrame (outCap : Nat) (ctx : Ctx) (payloads : List Bytes) :
    outputs (processSecureFrame outCap) ctx payloads =
      (ctx.unwrapAll payloads).map (reencode outCap) := by
  have hsim : (outputs Ctx.unwrap ctx payloads).map (reencode outCap) =
      outputs (processSecureFrame outCap) ctx (payloads.map id) := by
    refine outputs_simulation (R := Eq) (fun s t a _ h => ?_) rfl
    subst h
    exact ⟨rfl, rfl⟩
  rw [List.map_id] at hsim
  exact hsim.symm

theorem mem_frames {key : Bytes} {c : Nat} {payloads : List Bytes} {w : Bytes}
    (h : w ∈ frames key c payloads) : ∃ counter, ∃ p ∈ payloads, w = frame key counter p := by
  obtain ⟨⟨p, k⟩, hmem, rfl⟩ := List.mem_map.mp h
  exact ⟨_, p, (List.mem_zipIdx hmem).2.2 ▸ List.getElem_mem _, rfl⟩

/-- Secure payloads fit every buffer with room for the longest one. -/
theorem short_frames {key : Bytes} {c cap : Nat} {payloads : List Bytes}
    (hshort : ∀ p ∈ payloads, p.length ≤ macInputScratchLen - counterLen)
    (hcap : macInputScratchLen - counterLen + overhead ≤ cap) :
    ∀ w ∈ frames key c payloads, w.length ≤ 65535 ∧ w.length ≤ cap := by
  intro w hw
  obtain ⟨counter, p, hp, rfl⟩ := mem_frames hw
  have hlen := length_frame key counter p
  have hle := hshort p hp
  constructor
  · have hmax : macInputScratchLen - counterLen + overhead ≤ 65535 := by decide
    omega
  · omega

theorem forwarded_line (key : Bytes) (src : UInt8) {payloads : List Bytes}
    (hshort : ∀ p ∈ payloads, p.length ≤ macInputScratchLen - counterLen)
    (hfew : payloads.length ≤ 2 ^ 32) :
    ((init key).uplink.feedAll (processSecureFrame (maxEncodedLen maxPayload))
      (securedLine src (.init key) payloads)).handled =
        payloads.map fun p => .forwarded (encoded addr p) := by
  have hfits : ∀ w ∈ frames key 0 payloads, w.length ≤ 65535 ∧
      w.length ≤ maxPayload + overhead := short_frames hshort (by decide)
  have hunwrap : (Ctx.init key).unwrapAll (frames key 0 payloads) = payloads.map .ok :=
    Ctx.unwrapAll_frames rfl hshort (Nat.zero_le _) (by omega)
  rw [securedLine, wrapAll_eq_frames hshort]
  calc ((init key).uplink.feedAll (processSecureFrame (maxEncodedLen maxPayload))
        ((frames key 0 payloads).flatMap (encoded src))).handled
      = outputs (processSecureFrame (maxEncodedLen maxPayload)) (.init key)
          (frames key 0 payloads) := handled_line _ List.length_replicate _ src hfits
    _ = payloads.map (fun p => reencode (maxEncodedLen maxPayload) (.ok p)) := by
        rw [outputs_processSecureFrame, hunwrap, List.map_map]
        rfl
    _ = payloads.map fun p => .forwarded (encoded addr p) := by
        refine List.map_congr_left fun p hp => reencode_ok ?_
        exact Nat.le_trans (hshort p hp) (by decide)

/-! ## Down -/

theorem wrapAndEncode_of_long (outCap : Nat) (ctx : Ctx) {plain : Bytes}
    (h : macInputScratchLen - counterLen < plain.length) :
    wrapAndEncode outCap ctx plain = (ctx, []) := by
  have hfails : ¬ Ctx.Fits plain (maxPayload + overhead) := fun hfits => by
    have := hfits.1
    omega
  rw [wrapAndEncode, Ctx.wrap_of_not_fits hfails]
  rfl

theorem outputs_wrapAndEncode (outCap : Nat) (ctx : Ctx) (plains : List Bytes) :
    outputs (wrapAndEncode outCap) ctx plains =
      (ctx.wrapAll (plains.map fun p => (p, maxPayload + overhead))).map
        (encodeWrapped outCap) := by
  induction plains generalizing ctx with
  | nil => rfl
  | cons p plains ih =>
    simp only [List.map_cons, Ctx.wrapAll, outputs]
    rw [ih]
    rfl

theorem encodeWrapped_eq {w : Bytes} (hne : w ≠ []) (h : w.length ≤ maxPayload + overhead) :
    encodeWrapped (maxEncodedLen (maxPayload + overhead)) w = encoded addr w := by
  rw [encodeWrapped, if_neg (fun hzero => hne (List.eq_nil_of_length_eq_zero hzero)),
    frameEncode_eq_encoded (maxEncodedLen_mono h)]
  exact List.take_length

theorem flatten_encodeWrapped {wrapped : List Bytes}
    (h : ∀ w ∈ wrapped, w.length ≤ maxPayload + overhead) :
    (wrapped.map (encodeWrapped (maxEncodedLen (maxPayload + overhead)))).flatten =
      (wrapped.filter (· ≠ [])).flatMap (encoded addr) := by
  induction wrapped with
  | nil => rfl
  | cons w wrapped ih =>
    have hrest := ih fun v hv => h v (List.mem_cons_of_mem w hv)
    rw [List.map_cons, List.flatten_cons, hrest]
    by_cases hne : w = []
    · subst hne
      rw [List.filter_cons_of_neg (by simp)]
      rfl
    · rw [List.filter_cons_of_pos (by simpa using hne), List.flatMap_cons,
        encodeWrapped_eq hne (h w List.mem_cons_self)]

theorem length_wrapAll_le {ctx : Ctx} {plains : List Bytes} {cap : Nat} {w : Bytes}
    (h : w ∈ ctx.wrapAll (plains.map fun p => (p, cap))) : w.length ≤ cap := by
  obtain ⟨ctx', call, hcall, rfl⟩ := exists_of_mem_outputs h
  obtain ⟨p, -, rfl⟩ := List.mem_map.mp hcall
  by_cases hfits : Ctx.Fits p cap
  · rw [Ctx.wrap_of_fits hfits, length_frame]
    exact hfits.2
  · rw [Ctx.wrap_of_not_fits hfits]
    exact Nat.zero_le _

/-- The payloads short enough to be wrapped. -/
def sendable (plains : List Bytes) : List Bytes :=
  plains.filter fun p => p.length ≤ macInputScratchLen - counterLen

theorem fitting_eq_sendable (plains : List Bytes) :
    Ctx.fitting (plains.map fun p => (p, maxPayload + overhead)) = sendable plains := by
  induction plains with
  | nil => rfl
  | cons p plains ih =>
    rw [List.map_cons, sendable]
    by_cases hshort : p.length ≤ macInputScratchLen - counterLen
    · have hroom : p.length + overhead ≤ maxPayload + overhead :=
        Nat.add_le_add_right (Nat.le_trans hshort (by decide)) _
      rw [Ctx.fitting_cons_of_fits ⟨hshort, hroom⟩, ih,
        List.filter_cons_of_pos (by simpa using hshort)]
      rfl
    · rw [Ctx.fitting_cons_of_not_fits fun hfits => hshort hfits.1, ih,
        List.filter_cons_of_neg (by simpa using hshort)]
      rfl

theorem wrapped_line (key : Bytes) (src : UInt8) {plains : List Bytes}
    (hshort : ∀ p ∈ plains, p.length ≤ maxPayload) :
    ((init key).downlink.feedAll (wrapAndEncode (maxEncodedLen (maxPayload + overhead)))
      (plains.flatMap (encoded src))).handled.flatten =
        (frames key 0 (sendable plains)).flatMap (encoded addr) := by
  have hfits : ∀ p ∈ plains, p.length ≤ 65535 ∧ p.length ≤ maxPayload := fun p hp =>
    ⟨Nat.le_trans (hshort p hp) (by decide), hshort p hp⟩
  have hsent : (Ctx.init key).sent (plains.map fun p => (p, maxPayload + overhead)) =
      frames key 0 (sendable plains) := by
    rw [← fitting_eq_sendable]
    exact Ctx.sent_eq rfl _
  calc ((init key).downlink.feedAll (wrapAndEncode (maxEncodedLen (maxPayload + overhead)))
        (plains.flatMap (encoded src))).handled.flatten
      = (outputs (wrapAndEncode (maxEncodedLen (maxPayload + overhead))) (.init key)
          plains).flatten :=
        congrArg List.flatten (handled_line _ List.length_replicate _ src hfits)
    _ = ((Ctx.init key).sent (plains.map fun p => (p, maxPayload + overhead))).flatMap
          (encoded addr) := by
        rw [outputs_wrapAndEncode, flatten_encodeWrapped fun w hw => length_wrapAll_le hw]
        rfl
    _ = (frames key 0 (sendable plains)).flatMap (encoded addr) := by rw [hsent]

theorem length_of_mem_sendable {plains : List Bytes} {p : Bytes} (h : p ∈ sendable plains) :
    p.length ≤ macInputScratchLen - counterLen := by
  simpa using (List.mem_filter.mp h).2

/-- The gateway is transparent: whatever the order in which the bytes of the two links come in,
the agent is sent the plain frames of the board's payloads, and the board is sent secure frames of
the agent's payloads that are short enough, under consecutive counters, all of which it accepts. -/
theorem transparent (key : Bytes) (boardSrc agentSrc : UInt8) {payloads replies : List Bytes}
    (hup : ∀ p ∈ payloads, p.length ≤ 316) (hupFew : payloads.length ≤ 2 ^ 32)
    (hdown : ∀ p ∈ replies, p.length ≤ 512) (hdownFew : replies.length ≤ 2 ^ 32)
    {inputs : List Input}
    (hboard : boardBytes inputs = securedLine boardSrc (.init key) payloads)
    (hagent : agentBytes inputs = replies.flatMap (encoded agentSrc)) :
    ((init key).run inputs).toAgent = payloads.flatMap (encoded addr) ∧
    (∀ ctx framePayload n,
      (processSecureFrame (maxEncodedLen maxPayload) ctx framePayload).2 ≠ .tooLarge n) ∧
    ((init key).run inputs).toBoard =
      (frames key 0 (replies.filter (·.length ≤ 316))).flatMap (encoded addr) ∧
    (∀ outCap ctx plain, 316 < plain.length → wrapAndEncode outCap ctx plain = (ctx, [])) ∧
    ∀ buf : Bytes, 316 + overhead ≤ buf.length →
      (Direction.feedAll Ctx.unwrap ⟨.init addr buf buf.length, .init key, []⟩
        ((init key).run inputs).toBoard).handled =
          (replies.filter (·.length ≤ 316)).map .ok := by
  have hsendable : replies.filter (·.length ≤ 316) = sendable replies := rfl
  have htoBoard : ((init key).run inputs).toBoard =
      (frames key 0 (sendable replies)).flatMap (encoded addr) := by
    rw [toBoard, downlink_run, hagent]
    exact wrapped_line key agentSrc hdown
  refine ⟨?_, processSecureFrame_ne_tooLarge, htoBoard,
    fun outCap ctx plain hlong => wrapAndEncode_of_long outCap ctx hlong, fun buf hbuf => ?_⟩
  · rw [toAgent, uplink_run, hboard, forwarded_line key boardSrc hup hupFew]
    simp [List.flatMap_map]
  · have hshort : ∀ p ∈ sendable replies, p.length ≤ macInputScratchLen - counterLen :=
      fun p hp => length_of_mem_sendable hp
    have hlen : (sendable replies).length ≤ replies.length := List.length_filter_le _ _
    rw [htoBoard, handled_line _ rfl _ _ (short_frames hshort hbuf), hsendable]
    exact Ctx.unwrapAll_frames rfl hshort (Nat.zero_le _) (by omega)

/-- A payload that is read whole but not wrapped. -/
def longReply : Bytes := List.replicate 400 0

theorem length_longReply : longReply.length = 400 := List.length_replicate

/-- Two payloads up, and two down of which the second is too long. -/
def twoEachWay : List Input :=
  (securedLine 5 (.init [7]) [[1], [2, 3]]).map .board ++
    ([[4], longReply].flatMap (encoded 9)).map .agent

theorem transparent_twoEachWay :
    ((init [7]).run twoEachWay).toAgent = encoded addr [1] ++ encoded addr [2, 3] ∧
      ((init [7]).run twoEachWay).toBoard = encoded addr (frame [7] 0 [4]) := by
  have hboard : boardBytes twoEachWay = securedLine 5 (.init [7]) [[1], [2, 3]] :=
    boardBytes_append _ _
  have hagent : agentBytes twoEachWay = [[4], longReply].flatMap (encoded 9) :=
    agentBytes_append _ _
  have hfilter : [[4], longReply].filter (·.length ≤ 316) = [[4]] := by
    rw [List.filter_cons_of_pos (by simp), List.filter_cons_of_neg (by simp [length_longReply]),
      List.filter_nil]
  obtain ⟨hup, -, hdown, -⟩ := transparent [7] 5 9 (by simp) (by simp)
    (by simp [length_longReply]) (by simp) hboard hagent
  rw [hfilter] at hdown
  exact ⟨by simpa using hup, by simpa using hdown⟩

end SecureGateway

end RtosXrce.Host
