import RtosXrce.Arm.Ros2Line
import RtosXrce.Host.SecureGateway
import RtosXrce.Library.Transition

/-!
# Board, gateway and agent

The secured board on one serial link of `host/secure_gateway.c`, an agent on the other, each line a
pipe of bytes that are read in the order they were written, at any later time. The three take their
turns in any order. What the agent has heard is always a beginning of what the node has sent, and
what the node was given a beginning of what the agent has sent and a frame to the board can hold.
From every state the lines can be read to their ends, and then all of it has arrived.
-/

namespace RtosXrce.Arm.Ros2Demo.EndToEnd

open Library Xrce Xrce.Serial Xrce.Secure Host Host.SecureGateway

/-! ## Readers on a part of a line -/

theorem feedAll_append (r : Reader) (xs ys : Bytes) :
    r.feedAll (xs ++ ys) = (((r.feedAll xs).1.feedAll ys).1,
      (r.feedAll xs).2 ++ ((r.feedAll xs).1.feedAll ys).2) := by
  induction xs generalizing r with
  | nil => rfl
  | cons x xs ih => simp only [List.cons_append, Reader.feedAll, ih]

/-- A reader hears the beginning of a line first. -/
theorem payloads_prefix (r : Reader) {xs ys : Bytes} (h : xs <+: ys) :
    Direction.payloads r xs <+: Direction.payloads r ys := by
  obtain ⟨zs, rfl⟩ := h
  rw [Direction.payloads, Direction.payloads, feedAll_append, List.filterMap_append]
  exact List.prefix_append _ _

theorem speaks_frames (payloads : List Bytes) (src : UInt8)
    (short : ∀ p ∈ payloads, p.length ≤ 65535) :
    Speaks src addr (payloads.flatMap (encoded src)) payloads := by
  induction payloads with
  | nil => exact .nil
  | cons p payloads ih =>
    rw [List.flatMap_cons, encoded_eq_wire]
    exact .frame (short p List.mem_cons_self) (ih fun q hq => short q (List.mem_cons_of_mem p hq))

/-- What a fresh reader has heard of a line of which it has read a part. -/
theorem payloads_of_prefix {src : UInt8} {line part : Bytes} {payloads : List Bytes}
    (h : Speaks src addr line payloads) (hpart : part <+: line) {buf : Bytes} {cap : Nat}
    (hbuf : buf.length = cap) :
    Direction.payloads (.init addr buf cap) part <+: payloads.filter (·.length ≤ cap) ∧
      (part = line →
        Direction.payloads (.init addr buf cap) part = payloads.filter (·.length ≤ cap)) := by
  subst hbuf
  have hall : Direction.payloads (.init addr buf buf.length) line =
      payloads.filter (·.length ≤ buf.length) := (h.heard (tracks_init addr buf)).2
  exact ⟨hall ▸ payloads_prefix _ hpart, fun heq => heq ▸ hall⟩

/-! ## Secure frames of which some are missing -/

/-- Secure payloads under increasing counters are all accepted. -/
theorem unwrapAll_increasing {key : Bytes} {zs : List (Bytes × Nat)} {r : Ctx} (hkey : r.key = key)
    (short : ∀ z ∈ zs, z.1.length ≤ macInputScratchLen - counterLen)
    (increasing : zs.Pairwise fun z w => z.2 < w.2) (above : ∀ z ∈ zs, r.floor ≤ z.2)
    (few : ∀ z ∈ zs, z.2 < 2 ^ 32) :
    r.unwrapAll (zs.map fun z => frame key (UInt32.ofNat z.2) z.1) = zs.map fun z => .ok z.1 := by
  induction zs generalizing r with
  | nil => rfl
  | cons z zs ih =>
    obtain ⟨hfirst, hrest⟩ := List.pairwise_cons.mp increasing
    have hc : (UInt32.ofNat z.2).toNat = z.2 := UInt32.toNat_ofNat_of_lt' (few z List.mem_cons_self)
    have hfloor := above z List.mem_cons_self
    have hnumber : number r.key (frame key (UInt32.ofNat z.2) z.1) = some z.2 := by
      rw [hkey, number_frame key _ (short z List.mem_cons_self), hc]
    have hok : (r.unwrap (frame key (UInt32.ofNat z.2) z.1)).2 = .ok z.1 := by
      rw [Ctx.unwrap_ok_iff, getCounterBe_frame, plain_frame, hc, hkey]
      exact ⟨verifies_frame key _ (short z List.mem_cons_self), hfloor, rfl⟩
    have hnext : (r.unwrap (frame key (UInt32.ofNat z.2) z.1)).1.floor = z.2 + 1 := by
      rw [Ctx.unwrap_offer.1, hnumber, Record.offer, if_pos hfloor]
    have htail := ih (Ctx.unwrap_key.trans hkey) (fun w hw => short w (List.mem_cons_of_mem z hw))
      hrest (fun w hw => (Nat.le_of_eq hnext).trans (hfirst w hw))
      fun w hw => few w (List.mem_cons_of_mem z hw)
    rw [List.map_cons, List.map_cons, ← htail, ← hok]
    rfl

/-! ## The two ways -/

theorem take_frames (key : Bytes) (c : Nat) (payloads : List Bytes) (k : Nat) :
    (frames key c payloads).take k = frames key c (payloads.take k) := by
  apply List.ext_getElem?
  intro i
  rw [List.getElem?_take, getElem?_frames, getElem?_frames, List.getElem?_take]
  split <;> rfl

/-- What the gateway writes for the agent when it has read a part of the board's line. -/
theorem toAgent_of_prefix {key : Bytes} {line : Bytes} {inputs : List SecureGateway.Input}
    {messages : List Bytes} (short : ∀ m ∈ messages, m.length ≤ macInputScratchLen - counterLen)
    (few : messages.length ≤ 2 ^ 32)
    (h : Speaks serialAddr addr line (frames key 0 messages)) (hpart : boardBytes inputs <+: line) :
    ∃ part, part <+: messages ∧ (boardBytes inputs = line → part = messages) ∧
      ((init key).run inputs).toAgent = part.flatMap (encoded addr) := by
  have fits : ∀ w ∈ frames key 0 messages, w.length ≤ maxPayload + overhead :=
    fun w hw => (short_frames short (by decide) w hw).2
  have hcap : (List.replicate (maxPayload + overhead) (0 : UInt8)).length = maxPayload + overhead :=
    List.length_replicate
  obtain ⟨hbegin, hall⟩ := payloads_of_prefix h hpart hcap
  rw [List.filter_eq_self.mpr (by simpa using fits)] at hbegin hall
  obtain ⟨k, hk⟩ : ∃ k, Direction.payloads (.init addr (.replicate (maxPayload + overhead) 0)
      (maxPayload + overhead)) (boardBytes inputs) = frames key 0 (messages.take k) :=
    ⟨_, (List.prefix_iff_eq_take.mp hbegin).trans (take_frames key 0 messages _)⟩
  have hshort : ∀ m ∈ messages.take k, m.length ≤ macInputScratchLen - counterLen :=
    fun m hm => short m (List.mem_of_mem_take hm)
  have hlen : (messages.take k).length ≤ messages.length := List.length_take_le' k messages
  have hhandled : ((init key).run inputs).uplink.handled =
      (messages.take k).map fun m => .forwarded (encoded addr m) := by
    have hrun : ((init key).run inputs).uplink.handled =
        outputs (processSecureFrame (maxEncodedLen maxPayload)) (.init key)
          (frames key 0 (messages.take k)) := by
      rw [uplink_run, Direction.handled_feedAll, ← hk]
      rfl
    have hunwrap : (Ctx.init key).unwrapAll (frames key 0 (messages.take k)) =
        (messages.take k).map .ok :=
      Ctx.unwrapAll_frames rfl hshort (Nat.zero_le _) (by omega)
    rw [hrun, outputs_processSecureFrame, hunwrap, List.map_map]
    exact List.map_congr_left fun m hm => reencode_ok (Nat.le_trans (hshort m hm) (by decide))
  refine ⟨messages.take k, List.take_prefix k messages, fun heq => ?_, ?_⟩
  · have hframes : frames key 0 (messages.take k) = frames key 0 messages :=
      hk.symm.trans (hall heq)
    have hlength := congrArg List.length hframes
    rw [length_frames, length_frames] at hlength
    exact (List.take_prefix k messages).eq_of_length hlength
  · rw [toAgent, hhandled, List.flatMap_map]

/-- What the gateway writes for the board when it has read a part of the agent's line. -/
theorem toBoard_of_prefix (key : Bytes) {src : UInt8} {line : Bytes}
    {inputs : List SecureGateway.Input} {replies : List Bytes} (h : Speaks src addr line replies)
    (hpart : agentBytes inputs <+: line) :
    ∃ part, part <+: replies.filter (·.length ≤ maxPayload) ∧
      (agentBytes inputs = line → part = replies.filter (·.length ≤ maxPayload)) ∧
      ((init key).run inputs).toBoard =
        (frames key 0 (sendable part)).flatMap (encoded addr) := by
  have hcap : (List.replicate maxPayload (0 : UInt8)).length = maxPayload := List.length_replicate
  obtain ⟨hbegin, hall⟩ := payloads_of_prefix h hpart hcap
  refine ⟨_, hbegin, hall, ?_⟩
  have hsent (plains : List Bytes) :
      (Ctx.init key).sent (plains.map fun p => (p, maxPayload + overhead)) =
        frames key 0 (sendable plains) := by
    rw [← fitting_eq_sendable]
    exact Ctx.sent_eq rfl _
  have hrun : ((init key).run inputs).downlink.handled =
      outputs (wrapAndEncode (maxEncodedLen (maxPayload + overhead))) (.init key)
        (Direction.payloads (.init addr (.replicate maxPayload 0) maxPayload)
          (agentBytes inputs)) := by
    rw [downlink_run, Direction.handled_feedAll]
    rfl
  rw [toBoard, hrun, outputs_wrapAndEncode, flatten_encodeWrapped fun w hw => length_wrapAll_le hw,
    ← hsent]
  rfl

/-! ## What the board is given -/

/-- The byte that a turn of the board takes from its line. -/
def polled : Op → Option UInt8
  | .poll c => c
  | _ => none

/-- The payload that an input delivers. -/
def delivered : Ros2Demo.Input → Option Bytes
  | .deliver payload => some payload
  | _ => none

def plain? : Secure.Result → Option Bytes
  | .ok plain => some plain
  | _ => none

/-- The node is given the payloads that verify among those its reader hears. -/
theorem delivered_inputs (ops : List Op) (ears : Ears) :
    (ears.inputs true ops).filterMap delivered =
      (ears.downlink.unwrapAll (Direction.payloads ears.reader (ops.filterMap polled))).filterMap
        plain? := by
  induction ops generalizing ears with
  | nil => rfl
  | cons op ops ih =>
    rw [inputs_cons, List.filterMap_append, ih]
    cases op with
    | announce k | announced | publish i => rfl
    | poll c =>
      cases c with
      | none => rfl
      | some c =>
        have hpolled : (Op.poll (some c) :: ops).filterMap polled = c :: ops.filterMap polled := rfl
        rw [hpolled]
        simp only [Ears.hear, Direction.payloads, Reader.feedAll]
        rcases hfeed : ears.reader.feed c with ⟨reader, res⟩
        cases res with
        | inProgress | error => rfl
        | frameReady src len =>
          simp only [if_true, Reader.event, List.filterMap_cons, Reader.Event.payload?,
            Ctx.unwrapAll, outputs]
          rcases ears.downlink.unwrap (reader.payloadBuf.take len.toNat) with ⟨downlink, sres⟩
          cases sres with
          | ok plain => rfl
          | tooShort | badTag | replayed => rfl

/-- The payloads of at most 256 bytes, with the counters under which they go out. -/
def numbered (plains : List Bytes) : List (Bytes × Nat) :=
  plains.zipIdx.filter fun z => z.1.length ≤ 256

theorem map_fst_numbered (plains : List Bytes) :
    (numbered plains).map Prod.fst = plains.filter (·.length ≤ 256) := by
  rw [numbered, ← List.zipIdx_map_fst 0 plains, List.filter_map, List.zipIdx_map_fst]
  rfl

theorem filter_frames (key : Bytes) (plains : List Bytes) :
    (frames key 0 plains).filter (·.length ≤ payloadBufLen) =
      (numbered plains).map fun z => frame key (UInt32.ofNat z.2) z.1 := by
  have hfits (z : Bytes × Nat) :
      decide ((frame key (UInt32.ofNat z.2) z.1).length ≤ payloadBufLen) =
        decide (z.1.length ≤ 256) := by
    rw [length_frame]
    exact decide_eq_decide.mpr Nat.add_le_add_iff_right
  rw [frames, List.filter_map, numbered]
  exact congrArg _ (List.filter_congr fun z _ => hfits z)

theorem numbered_increasing (plains : List Bytes) :
    (numbered plains).Pairwise fun z w => z.2 < w.2 := by
  refine List.Pairwise.filter _ (List.pairwise_map.mp ?_)
  rw [List.zipIdx_map_snd]
  exact List.pairwise_lt_range'

/-- What the node is given when its board has read a part of what the gateway writes for it. -/
theorem given_of_prefix {key : Bytes} {plains : List Bytes}
    (short : ∀ p ∈ plains, p.length ≤ macInputScratchLen - counterLen)
    (few : plains.length ≤ 2 ^ 32) {bytes : Bytes}
    (hpart : bytes <+: (frames key 0 plains).flatMap (encoded addr)) :
    let heard := Direction.payloads (.init addr (.replicate payloadBufLen 0) payloadBufLen) bytes
    let given := ((Ctx.init key).unwrapAll heard).filterMap plain?
    given <+: plains.filter (·.length ≤ 256) ∧
      (bytes = (frames key 0 plains).flatMap (encoded addr) →
        given = plains.filter (·.length ≤ 256)) := by
  intro heard given
  have hline : Speaks addr addr ((frames key 0 plains).flatMap (encoded addr))
      (frames key 0 plains) :=
    speaks_frames _ addr fun w hw => (short_frames short (Nat.le_refl _) w hw).1
  obtain ⟨hbegin, hall⟩ :=
    payloads_of_prefix hline hpart (List.length_replicate (n := payloadBufLen))
  rw [filter_frames] at hbegin hall
  have hopened {zs : List (Bytes × Nat)} (hzs : zs <+: numbered plains)
      (hheard : heard = zs.map fun z => frame key (UInt32.ofNat z.2) z.1) :
      given = zs.map Prod.fst := by
    have hmem {z : Bytes × Nat} (hz : z ∈ zs) : z ∈ plains.zipIdx :=
      List.mem_of_mem_filter (hzs.subset hz)
    have hunwrap : (Ctx.init key).unwrapAll heard = zs.map fun z => .ok z.1 := by
      rw [hheard]
      refine unwrapAll_increasing rfl (fun z hz => ?_) ?_ (fun _ _ => Nat.zero_le _) fun z hz => ?_
      · exact short z.1 (List.fst_mem_of_mem_zipIdx (hmem hz))
      · exact (numbered_increasing plains).sublist hzs.sublist
      · have hlt := List.snd_lt_add_of_mem_zipIdx (hmem hz)
        omega
    simp only [given, hunwrap, List.filterMap_map, Function.comp_def, plain?,
      List.filterMap_eq_map']
  obtain ⟨k, hk⟩ : ∃ k, heard =
      ((numbered plains).take k).map fun z => frame key (UInt32.ofNat z.2) z.1 :=
    ⟨_, (List.prefix_iff_eq_take.mp hbegin).trans List.map_take.symm⟩
  refine ⟨?_, fun heq => ?_⟩
  · rw [hopened (List.take_prefix k _) hk, ← map_fst_numbered]
    exact (List.take_prefix k _).map _
  · rw [hopened (List.prefix_refl _) (hall heq), map_fst_numbered]

/-! ## The three on their lines -/

/-- Board, gateway and what the agent has written; the numbers are those of the bytes that have been
read, of the board's line, of the agent's, and of the gateway's to the board and to the agent. -/
structure Network where
  board : Board
  gateway : SecureGateway
  agentLine : Bytes
  boardRead : Nat
  agentRead : Nat
  toBoardRead : Nat
  toAgentRead : Nat

inductive Action where
  /-- A turn of the board without a byte, or with the next byte of its line. -/
  | board (op : Op)
  /-- A turn of the gateway's loop with the next byte of a line. -/
  | relayUp
  | relayDown
  /-- The agent writes a frame, or reads a byte. -/
  | reply (payload : Bytes)
  | listen

section System

variable (nodeId : Nat) (key : Bytes) (agentAddr : UInt8)

def network : System Network Action where
  step n
    | .board op =>
      let board := Ros2Demo.step true nodeId n.board op
      match polled op with
      | none => some { n with board }
      | some c =>
        if n.gateway.toBoard[n.toBoardRead]? = some c then
          some { n with board, toBoardRead := n.toBoardRead + 1 }
        else none
    | .relayUp => n.board.tx[n.boardRead]?.map fun c =>
        { n with gateway := n.gateway.step (.board c), boardRead := n.boardRead + 1 }
    | .relayDown => n.agentLine[n.agentRead]?.map fun c =>
        { n with gateway := n.gateway.step (.agent c), agentRead := n.agentRead + 1 }
    | .reply payload =>
      if payload.length ≤ 65535 then
        some { n with agentLine := n.agentLine ++ encoded agentAddr payload }
      else none
    | .listen => n.gateway.toAgent[n.toAgentRead]?.map fun _ =>
        { n with toAgentRead := n.toAgentRead + 1 }

def Network.start : Network := ⟨boot true nodeId key, .init key, [], 0, 0, 0, 0⟩

end System

/-- What has happened: the turns of the board, the bytes of the gateway and the agent's payloads. -/
structure History where
  ops : List Op := []
  inputs : List SecureGateway.Input := []
  replies : List Bytes := []

def note (n : Network) : Action → History → History
  | .board op, h => { h with ops := h.ops ++ [op] }
  | .relayUp, h => { h with inputs := h.inputs ++ (n.board.tx[n.boardRead]?.map .board).toList }
  | .relayDown, h => { h with inputs := h.inputs ++ (n.agentLine[n.agentRead]?.map .agent).toList }
  | .reply payload, h => { h with replies := h.replies ++ [payload] }
  | .listen, h => h

/-- Of a line, a part has been read, so many bytes. -/
def ReadOf (part bytes : Bytes) (n : Nat) : Prop := part <+: bytes ∧ part.length = n

theorem ReadOf.write {part bytes more : Bytes} {n : Nat} (h : ReadOf part bytes n) :
    ReadOf part (bytes ++ more) n :=
  ⟨h.1.trans (List.prefix_append bytes more), h.2⟩

theorem ReadOf.read {part bytes : Bytes} {n : Nat} {c : UInt8} (h : ReadOf part bytes n)
    (next : bytes[n]? = some c) : ReadOf (part ++ [c]) bytes (n + 1) := by
  obtain ⟨⟨rest, rfl⟩, rfl⟩ := h
  rw [List.getElem?_append_right (Nat.le_refl _), Nat.sub_self] at next
  refine ⟨?_, by simp⟩
  cases rest with
  | nil => simp at next
  | cons d rest =>
    obtain rfl := Option.some.inj next
    exact ⟨rest, by simp⟩

theorem ReadOf.all {part bytes : Bytes} (h : ReadOf part bytes bytes.length) : part = bytes :=
  h.1.eq_of_length h.2

/-- What a state and the history of its run have to do with each other. -/
structure Agrees (nodeId : Nat) (key : Bytes) (agentAddr : UInt8) (n : Network) (h : History) :
    Prop where
  board : n.board = run true nodeId (boot true nodeId key) h.ops
  gateway : n.gateway = (SecureGateway.init key).run h.inputs
  agentLine : Speaks agentAddr addr n.agentLine h.replies
  boardRead : ReadOf (boardBytes h.inputs) n.board.tx n.boardRead
  agentRead : ReadOf (agentBytes h.inputs) n.agentLine n.agentRead
  toBoardRead : ReadOf (h.ops.filterMap polled) n.gateway.toBoard n.toBoardRead
  toAgentRead : n.toAgentRead ≤ n.gateway.toAgent.length

theorem tx_step (nodeId : Nat) (b : Board) (op : Op) :
    ∃ more, (Ros2Demo.step true nodeId b op).tx = b.tx ++ more := by
  obtain ⟨out, htx, -⟩ := run_speaks true nodeId [op] b
  exact ⟨out, htx⟩

theorem handled_feed {β : Type} (handle : Ctx → Bytes → Ctx × β) (d : Direction β) (byte : UInt8) :
    ∃ more, (d.feed handle byte).handled = d.handled ++ more :=
  ⟨_, Direction.handled_feedAll handle d [byte]⟩

theorem toBoard_step (g : SecureGateway) (input : SecureGateway.Input) :
    ∃ more, (g.step input).toBoard = g.toBoard ++ more := by
  cases input with
  | board byte => exact ⟨[], (List.append_nil _).symm⟩
  | agent byte =>
    obtain ⟨more, hmore⟩ := handled_feed (wrapAndEncode (maxEncodedLen (maxPayload + overhead)))
      g.downlink byte
    exact ⟨more.flatten, by simp only [toBoard, SecureGateway.step, hmore, List.flatten_append]⟩

theorem toAgent_step (g : SecureGateway) (input : SecureGateway.Input) :
    ∃ more, (g.step input).toAgent = g.toAgent ++ more := by
  cases input with
  | agent byte => exact ⟨[], (List.append_nil _).symm⟩
  | board byte =>
    obtain ⟨more, hmore⟩ := handled_feed (processSecureFrame (maxEncodedLen maxPayload))
      g.uplink byte
    exact ⟨_, by simp only [toAgent, SecureGateway.step, hmore, List.flatMap_append]; rfl⟩

section Run

variable {nodeId : Nat} {key : Bytes} {agentAddr : UInt8}

theorem Agrees.init : Agrees nodeId key agentAddr (.start nodeId key) {} where
  board := rfl
  gateway := rfl
  agentLine := .nil
  boardRead := ⟨List.nil_prefix, rfl⟩
  agentRead := ⟨List.nil_prefix, rfl⟩
  toBoardRead := ⟨List.nil_prefix, rfl⟩
  toAgentRead := Nat.zero_le _

/-- A turn of the board, whose poll has taken what the line had next. -/
theorem Agrees.turn {n : Network} {h : History} (hn : Agrees nodeId key agentAddr n h) {op : Op}
    {read : Nat} (hread : ReadOf ((h.ops ++ [op]).filterMap polled) n.gateway.toBoard read) :
    Agrees nodeId key agentAddr
      { n with board := Ros2Demo.step true nodeId n.board op, toBoardRead := read }
      { h with ops := h.ops ++ [op] } where
  board := by rw [run_append, ← hn.board]; rfl
  gateway := hn.gateway
  agentLine := hn.agentLine
  boardRead := by
    obtain ⟨more, hmore⟩ := tx_step nodeId n.board op
    simpa only [hmore] using hn.boardRead.write
  agentRead := hn.agentRead
  toBoardRead := hread
  toAgentRead := hn.toAgentRead

/-- A turn of the gateway, with a byte of either line. -/
theorem Agrees.relay {n : Network} {h : History} (hn : Agrees nodeId key agentAddr n h)
    {input : SecureGateway.Input} {boardRead agentRead : Nat}
    (hboard : ReadOf (boardBytes (h.inputs ++ [input])) n.board.tx boardRead)
    (hagent : ReadOf (agentBytes (h.inputs ++ [input])) n.agentLine agentRead) :
    Agrees nodeId key agentAddr { n with gateway := n.gateway.step input, boardRead, agentRead }
      { h with inputs := h.inputs ++ [input] } where
  board := hn.board
  gateway := by rw [hn.gateway, SecureGateway.run, SecureGateway.run, List.foldl_append]; rfl
  agentLine := hn.agentLine
  boardRead := hboard
  agentRead := hagent
  toBoardRead := by
    obtain ⟨more, hmore⟩ := toBoard_step n.gateway input
    simpa only [hmore] using hn.toBoardRead.write
  toAgentRead := by
    obtain ⟨more, hmore⟩ := toAgent_step n.gateway input
    simp only [hmore, List.length_append]
    exact Nat.le_add_right_of_le hn.toAgentRead

theorem Agrees.step {n n' : Network} {h : History} (hn : Agrees nodeId key agentAddr n h)
    {a : Action} (hstep : (network nodeId agentAddr).step n a = some n') :
    Agrees nodeId key agentAddr n' (note n a h) := by
  cases a with
  | board op =>
    simp only [network] at hstep
    cases hpolled : polled op with
    | none =>
      simp only [hpolled] at hstep
      obtain rfl := Option.some.inj hstep
      exact hn.turn (by simpa [hpolled] using hn.toBoardRead)
    | some c =>
      simp only [hpolled] at hstep
      split at hstep
      case isTrue next =>
        obtain rfl := Option.some.inj hstep
        exact hn.turn (by simpa [hpolled] using hn.toBoardRead.read next)
      case isFalse => cases hstep
  | relayUp =>
    obtain ⟨c, next, rfl⟩ := Option.map_eq_some_iff.mp hstep
    rw [note, next]
    exact hn.relay (by simpa [boardBytes] using hn.boardRead.read next)
      (by simpa [agentBytes] using hn.agentRead)
  | relayDown =>
    obtain ⟨c, next, rfl⟩ := Option.map_eq_some_iff.mp hstep
    rw [note, next]
    exact hn.relay (by simpa [boardBytes] using hn.boardRead)
      (by simpa [agentBytes] using hn.agentRead.read next)
  | reply payload =>
    simp only [network] at hstep
    split at hstep
    case isTrue short =>
      obtain rfl := Option.some.inj hstep
      have hframe : Speaks agentAddr addr (encoded agentAddr payload) [payload] := by
        simpa [encoded_eq_wire] using Speaks.nil.frame short
      exact { hn with agentLine := hn.agentLine.append hframe, agentRead := hn.agentRead.write }
    case isFalse => cases hstep
  | listen =>
    obtain ⟨c, next, rfl⟩ := Option.map_eq_some_iff.mp hstep
    exact { hn with toAgentRead := (List.getElem?_eq_some_iff.mp next).1 }

theorem agrees_of_reachable {n : Network} {h : History}
    (reach : ((network nodeId agentAddr).watch note).Reachable (.start nodeId key, {}) (n, h)) :
    Agrees nodeId key agentAddr n h := by
  refine reach.invariant (I := fun s => Agrees nodeId key agentAddr s.1 s.2) .init ?_
  intro s a t hs _ hstep
  obtain ⟨hnet, hnote⟩ := System.watch_step hstep
  exact hnote ▸ hs.step hnet

/-! ## What arrives -/

/-- The messages that the node has sent in the turns of its board. -/
def sent (nodeId : Nat) (key : Bytes) (ops : List Op) : List Bytes :=
  (boot true nodeId key).sends nodeId ((boot true nodeId key).ears.inputs true ops)

/-- The payloads that the node has been given. -/
def given (nodeId : Nat) (key : Bytes) (ops : List Op) : List Bytes :=
  ((boot true nodeId key).ears.inputs true ops).filterMap delivered

/-- Nothing is left to read on the way up, or down. -/
def Network.DrainedUp (n : Network) : Prop :=
  n.boardRead = n.board.tx.length ∧ n.toAgentRead = n.gateway.toAgent.length

def Network.DrainedDown (n : Network) : Prop :=
  n.agentRead = n.agentLine.length ∧ n.toBoardRead = n.gateway.toBoard.length

theorem Agrees.up {n : Network} {h : History} (hn : Agrees nodeId key agentAddr n h) {buf : Bytes}
    (room : 256 ≤ buf.length) (few : (sent nodeId key h.ops).length ≤ 2 ^ 32) :
    heard buf (n.gateway.toAgent.take n.toAgentRead) <+: sent nodeId key h.ops ∧
      (n.DrainedUp → heard buf (n.gateway.toAgent.take n.toAgentRead) = sent nodeId key h.ops) := by
  have short : ∀ m ∈ sent nodeId key h.ops, m.length ≤ 256 := fun m hm => length_sends_le hm
  have hline : Speaks serialAddr addr n.board.tx (frames key 0 (sent nodeId key h.ops)) := by
    obtain ⟨out, htx, hspeaks⟩ := run_speaks true nodeId h.ops (boot true nodeId key)
    have henvelopes : outputs (envelope true) (boot true nodeId key).uplink
        (sent nodeId key h.ops) = frames key 0 (sent nodeId key h.ops) :=
      outputs_envelope_secure (c := 0) rfl short
    rw [hn.board, htx, ← henvelopes, ← List.nil_append (outputs _ _ _)]
    exact (boot_speaks true nodeId key).append hspeaks
  obtain ⟨part, hpart, hall, htoAgent⟩ := toAgent_of_prefix
    (fun m hm => Nat.le_trans (short m hm) (by decide)) few hline hn.boardRead.1
  rw [← hn.gateway] at htoAgent
  have hspeaks : Speaks addr addr n.gateway.toAgent part :=
    htoAgent ▸ speaks_frames part addr fun m hm =>
      Nat.le_trans (short m (hpart.subset hm)) (by decide)
  have hfits : part.filter (·.length ≤ buf.length) = part := by
    refine List.filter_eq_self.mpr fun m hm => ?_
    exact decide_eq_true (Nat.le_trans (short m (hpart.subset hm)) room)
  obtain ⟨hbegin, heq⟩ := payloads_of_prefix hspeaks (List.take_prefix n.toAgentRead _)
    (rfl : buf.length = _)
  rw [hfits] at hbegin heq
  refine ⟨hbegin.trans hpart, fun drained => ?_⟩
  have hread : boardBytes h.inputs = n.board.tx := (drained.1 ▸ hn.boardRead).all
  exact (heq (by rw [drained.2, List.take_length])).trans (hall hread)

theorem Agrees.down {n : Network} {h : History} (hn : Agrees nodeId key agentAddr n h)
    (few : h.replies.length ≤ 2 ^ 32) :
    given nodeId key h.ops <+: h.replies.filter (·.length ≤ 256) ∧
      (n.DrainedDown → given nodeId key h.ops = h.replies.filter (·.length ≤ 256)) := by
  obtain ⟨part, hpart, hall, htoBoard⟩ := toBoard_of_prefix key hn.agentLine hn.agentRead.1
  rw [← hn.gateway] at htoBoard
  have hread := hn.toBoardRead
  have hfilter {a b : Nat} (hab : a ≤ b) (plains : List Bytes) :
      (plains.filter (·.length ≤ b)).filter (·.length ≤ a) = plains.filter (·.length ≤ a) := by
    rw [List.filter_filter]
    refine List.filter_congr fun p _ => ?_
    by_cases hp : p.length ≤ a
    · simp [hp, Nat.le_trans hp hab]
    · simp [hp]
  have hsmall : (sendable part).filter (·.length ≤ 256) = part.filter (·.length ≤ 256) :=
    hfilter (by decide) part
  have hreplies : (h.replies.filter (·.length ≤ maxPayload)).filter (·.length ≤ 256) =
      h.replies.filter (·.length ≤ 256) := hfilter (by decide) h.replies
  have hfew : (sendable part).length ≤ 2 ^ 32 :=
    calc (sendable part).length
        ≤ part.length := List.length_filter_le _ part
      _ ≤ (h.replies.filter (·.length ≤ maxPayload)).length := hpart.length_le
      _ ≤ 2 ^ 32 := Nat.le_trans (List.length_filter_le _ _) few
  have hgiven : given nodeId key h.ops = ((Ctx.init key).unwrapAll (Direction.payloads
      (.init addr (.replicate payloadBufLen 0) payloadBufLen) (h.ops.filterMap polled))).filterMap
        plain? := delivered_inputs h.ops (boot true nodeId key).ears
  obtain ⟨hbegin, heq⟩ :=
    given_of_prefix (fun p hp => length_of_mem_sendable hp) hfew (htoBoard ▸ hread.1)
  rw [← hgiven, hsmall] at hbegin heq
  rw [← hreplies]
  refine ⟨hbegin.trans (hpart.filter _), fun drained => ?_⟩
  have hagent : agentBytes h.inputs = n.agentLine := (drained.1 ▸ hn.agentRead).all
  have hboard : h.ops.filterMap polled = n.gateway.toBoard := (drained.2 ▸ hread).all
  exact (heq (hboard.trans htoBoard)).trans (congrArg _ (hall hagent))

/-- In every order of their turns, the agent has heard a beginning of what the node has sent, and
the node was given a beginning of what the agent has sent in up to 256 bytes: neither has heard a
payload twice, out of order or changed, and nothing that the gateway or the board drops
makes them miss another one. All of it has arrived where nothing is left to read. -/
theorem end_to_end {n : Network} {h : History}
    (reach : ((network nodeId agentAddr).watch note).Reachable (.start nodeId key, {}) (n, h))
    {buf : Bytes} (room : 256 ≤ buf.length) (fewUp : (sent nodeId key h.ops).length ≤ 2 ^ 32)
    (fewDown : h.replies.length ≤ 2 ^ 32) :
    let heardByAgent := heard buf (n.gateway.toAgent.take n.toAgentRead)
    let forBoard := h.replies.filter (·.length ≤ 256)
    (heardByAgent <+: sent nodeId key h.ops ∧
      (n.DrainedUp → heardByAgent = sent nodeId key h.ops)) ∧
    (given nodeId key h.ops <+: forBoard ∧
      (n.DrainedDown → given nodeId key h.ops = forBoard)) :=
  ⟨(agrees_of_reachable reach).up room fewUp, (agrees_of_reachable reach).down fewDown⟩

/-! ## Reading what is left -/

/-- The turns in which a byte is read and nothing is written on purpose. -/
def Action.Reads : Action → Prop
  | .board (.poll _) | .relayUp | .relayDown | .listen => True
  | .board _ | .reply _ => False

theorem history_of_reads {s t : Network × History}
    (h : ((network nodeId agentAddr).watch note).Reach (fun _ a => a.Reads) s t) :
    t.2.replies = s.2.replies ∧ ∃ polls : List (Option UInt8),
      t.2.ops = s.2.ops ++ polls.map .poll := by
  refine h.invariant (I := fun t => t.2.replies = s.2.replies ∧
    ∃ polls : List (Option UInt8), t.2.ops = s.2.ops ++ polls.map .poll)
    ⟨rfl, [], (List.append_nil _).symm⟩ ?_
  rintro t a u ⟨hreplies, polls, hops⟩ hreads hstep
  rw [(System.watch_step hstep).2]
  cases a with
  | board op =>
    cases op with
    | poll c => exact ⟨hreplies, polls ++ [c], by simp [note, hops]⟩
    | announce k | announced | publish i => exact hreads.elim
  | relayUp | relayDown | listen => exact ⟨hreplies, polls, hops⟩
  | reply payload => exact hreads.elim

/-- One line is read to its end. -/
theorem Agrees.exhaust {n : Network} {h : History} (hn : Agrees nodeId key agentAddr n h)
    {I : Network → Prop} (hI : I n) (left : Network → Nat)
    (next : ∀ n h, Agrees nodeId key agentAddr n h → I n → left n ≠ 0 →
      ∃ a n', a.Reads ∧ (network nodeId agentAddr).step n a = some n' ∧ I n' ∧ left n' < left n) :
    ∃ n' h', ((network nodeId agentAddr).watch note).Reach (fun _ a => a.Reads) (n, h) (n', h') ∧
      Agrees nodeId key agentAddr n' h' ∧ I n' ∧ left n' = 0 := by
  obtain ⟨⟨n', h'⟩, hreach, ⟨hn', hI'⟩, hleft⟩ : ∃ t : Network × History,
      ((network nodeId agentAddr).watch note).Reach (fun _ a => a.Reads) (n, h) t ∧
      (Agrees nodeId key agentAddr t.1 t.2 ∧ I t.1) ∧ left t.1 = 0 := by
    refine System.Reach.exhaust
      (I := fun s : Network × History => Agrees nodeId key agentAddr s.1 s.2 ∧ I s.1)
      (fun s => left s.1) ?_ ⟨hn, hI⟩
    intro s hs hleft
    obtain ⟨a, n', hreads, hstep, hI', hlt⟩ := next s.1 s.2 hs.1 hs.2 hleft
    refine ⟨a, (n', note s.1 a s.2), hreads, ?_, ⟨hs.1.step hstep, hI'⟩, hlt⟩
    exact Option.map_eq_some_iff.mpr ⟨n', hstep, rfl⟩
  exact ⟨n', h', hreach, hn', hI', hleft⟩

theorem Agrees.drainDown {n : Network} {h : History} (hn : Agrees nodeId key agentAddr n h) :
    ∃ n' h', ((network nodeId agentAddr).watch note).Reach (fun _ a => a.Reads) (n, h) (n', h') ∧
      Agrees nodeId key agentAddr n' h' ∧ n'.DrainedDown := by
  obtain ⟨n₁, h₁, hreach₁, hn₁, -, hleft₁⟩ := hn.exhaust (I := fun _ => True) trivial
    (fun n => n.agentLine.length - n.agentRead) fun n h hn _ hleft => by
      have hlt : n.agentRead < n.agentLine.length := by omega
      refine ⟨.relayDown, _, trivial, Option.map_eq_some_iff.mpr
        ⟨_, List.getElem?_eq_getElem hlt, rfl⟩, trivial, ?_⟩
      show n.agentLine.length - (n.agentRead + 1) < _
      omega
  have hagent : n₁.agentRead = n₁.agentLine.length := by
    have hle := hn₁.agentRead.1.length_le
    have hread := hn₁.agentRead.2
    omega
  obtain ⟨n₂, h₂, hreach₂, hn₂, hagent₂, hleft₂⟩ := hn₁.exhaust
    (I := fun n => n.agentRead = n.agentLine.length) hagent
    (fun n => n.gateway.toBoard.length - n.toBoardRead) fun n h hn hagent hleft => by
      have hlt : n.toBoardRead < n.gateway.toBoard.length := by omega
      refine ⟨.board (.poll (some n.gateway.toBoard[n.toBoardRead])), _, trivial,
        if_pos (List.getElem?_eq_getElem hlt), hagent, ?_⟩
      show n.gateway.toBoard.length - (n.toBoardRead + 1) < _
      omega
  refine ⟨n₂, h₂, hreach₁.trans hreach₂, hn₂, hagent₂, ?_⟩
  have hle := hn₂.toBoardRead.1.length_le
  have hread := hn₂.toBoardRead.2
  omega

/-- Reading on the way up writes nothing on the way down. -/
theorem Agrees.drainUp {n : Network} {h : History} (hn : Agrees nodeId key agentAddr n h)
    (hdown : n.DrainedDown) :
    ∃ n' h', ((network nodeId agentAddr).watch note).Reach (fun _ a => a.Reads) (n, h) (n', h') ∧
      n'.DrainedUp ∧ n'.DrainedDown := by
  obtain ⟨n₁, h₁, hreach₁, hn₁, hdown₁, hleft₁⟩ := hn.exhaust (I := Network.DrainedDown) hdown
    (fun n => n.board.tx.length - n.boardRead) fun n h hn hdown hleft => by
      have hlt : n.boardRead < n.board.tx.length := by omega
      refine ⟨.relayUp, _, trivial, Option.map_eq_some_iff.mpr
        ⟨_, List.getElem?_eq_getElem hlt, rfl⟩, hdown, ?_⟩
      show n.board.tx.length - (n.boardRead + 1) < _
      omega
  have hboard : n₁.boardRead = n₁.board.tx.length := by
    have hle := hn₁.boardRead.1.length_le
    have hread := hn₁.boardRead.2
    omega
  obtain ⟨n₂, h₂, hreach₂, hn₂, ⟨hdown₂, hboard₂⟩, hleft₂⟩ := hn₁.exhaust
    (I := fun n => n.DrainedDown ∧ n.boardRead = n.board.tx.length) ⟨hdown₁, hboard⟩
    (fun n => n.gateway.toAgent.length - n.toAgentRead) fun n h hn hI hleft => by
      have hlt : n.toAgentRead < n.gateway.toAgent.length := by omega
      refine ⟨.listen, _, trivial, Option.map_eq_some_iff.mpr
        ⟨_, List.getElem?_eq_getElem hlt, rfl⟩, hI, ?_⟩
      show n.gateway.toAgent.length - (n.toAgentRead + 1) < _
      omega
  have hagent := hn₂.toAgentRead
  exact ⟨n₂, h₂, hreach₁.trans hreach₂, ⟨hboard₂, by omega⟩, hdown₂⟩

/-- Whatever is on its way can be read to the end. -/
theorem exists_drained {n : Network} {h : History}
    (reach : ((network nodeId agentAddr).watch note).Reachable (.start nodeId key, {}) (n, h)) :
    ∃ n' h', ((network nodeId agentAddr).watch note).Reach (fun _ a => a.Reads) (n, h) (n', h') ∧
      n'.DrainedUp ∧ n'.DrainedDown := by
  obtain ⟨n₁, h₁, hreach₁, hn₁, hdown⟩ := (agrees_of_reachable reach).drainDown
  obtain ⟨n₂, h₂, hreach₂, hdrained⟩ := hn₁.drainUp hdown
  exact ⟨n₂, h₂, hreach₁.trans hreach₂, hdrained⟩

end Run

/-- A poll is nothing to the node, or a payload. -/
theorem inputs_polls (ears : Ears) (polls : List (Option UInt8)) :
    ears.inputs true (polls.map .poll) =
      ((ears.inputs true (polls.map .poll)).filterMap delivered).map .deliver := by
  induction polls generalizing ears with
  | nil => rfl
  | cons c polls ih =>
    rw [List.map_cons, inputs_cons, List.filterMap_append, List.map_append, ← ih]
    congr 1
    cases c with
    | none => rfl
    | some c =>
      simp only [Ears.hear, if_true]
      split
      · split
        · rfl
        · rfl
      · rfl

/-- The gateway reads a byte, the node publishes 5, the agent replies, and everything is read. -/
theorem end_to_end_sample : ∃ n h,
    ((network 0 0).watch note).Reachable (.start 0 [7], {}) (n, h) ∧
      heard (.replicate 256 0) (n.gateway.toAgent.take n.toAgentRead) =
        [[1, 1, 0, 0, 82, 84, 79, 83, 7, 1, 8, 0, 0, 9, 0, 0, 5, 0, 0, 0]] ∧
      given 0 [7] h.ops = [[1, 2, 3]] := by
  have before : ((network 0 0).watch note).Reachable (.start 0 [7], {}) _ :=
    ((System.Reach.refl.tail trivial (a := .relayUp) rfl).tail trivial
      (a := .board (.publish 5)) rfl).tail trivial (a := .reply [1, 2, 3]) rfl
  obtain ⟨n, h, hreads, hup, hdown⟩ := exists_drained before
  have reach := before.trans (hreads.mono fun _ _ _ => trivial)
  obtain ⟨hreplies, polls, hops⟩ := history_of_reads hreads
  change h.replies = [[1, 2, 3]] at hreplies
  change h.ops = .publish 5 :: polls.map .poll at hops
  have hgiven : given 0 [7] h.ops = [[1, 2, 3]] := by
    rw [((agrees_of_reachable reach).down (by simp [hreplies])).2 hdown, hreplies]
    rfl
  -- the node's inputs are the sample it publishes and what it is given
  have hpolls : ((boot true 0 [7]).ears.inputs true (polls.map .poll)).filterMap delivered =
      [[1, 2, 3]] := by rwa [given, hops, inputs_cons] at hgiven
  have hinputs : (boot true 0 [7]).ears.inputs true h.ops = [.publish 5, .deliver [1, 2, 3]] := by
    rw [hops, inputs_cons]
    change .publish 5 :: (boot true 0 [7]).ears.inputs true (polls.map .poll) = _
    rw [inputs_polls, hpolls]
    rfl
  have hsent : sent 0 [7] h.ops =
      [[1, 1, 0, 0, 82, 84, 79, 83, 7, 1, 8, 0, 0, 9, 0, 0, 5, 0, 0, 0]] := by
    rw [sent, hinputs]
    decide +kernel
  have room : 256 ≤ (List.replicate 256 (0 : UInt8)).length :=
    Nat.le_of_eq List.length_replicate.symm
  obtain ⟨⟨-, hheard⟩, -⟩ :=
    end_to_end reach room (by rw [hsent]; decide) (by rw [hreplies]; decide)
  exact ⟨n, h, reach, (hheard hup).trans hsent, hgiven⟩

end RtosXrce.Arm.Ros2Demo.EndToEnd
