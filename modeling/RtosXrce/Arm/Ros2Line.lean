import RtosXrce.Arm.Ros2Demo
import RtosXrce.Xrce.SecureCounters
import RtosXrce.Xrce.SerialStreams
import RtosXrce.Xrce.SessionControl
import Mathlib.Data.List.ReduceOption
import Mathlib.Tactic.IntervalCases

/-!
# What the board says on its line

Behind its reader and in front of its framing the board is a node that is given payloads and calls
the builders of a session. `run_speaks` connects the two: the line carries what the session builds,
in the order of the calls, and text that no reader takes for a frame.
-/

namespace RtosXrce.Arm.Ros2Demo

open Library Xrce Xrce.Cdr Xrce.Serial Xrce.Secure Xrce.Session Xrce.Msgs

/-! ## The node -/

/-- What happens to the node. -/
inductive Input where
  | announce (k : Fin 11)
  | publish (i : Int32)
  | deliver (payload : Bytes)

/-- The bytes of the value that `payload` sets, where it is a sample for the data reader. -/
def setpoint (ids : Ids) (payload : Bytes) : Option Bytes :=
  match parseData (fun i => payload.getD i 0) payload.length with
  | none => none
  | some data =>
    if data.objectId ≠ ids.datareader ∨ data.sampleLen < 4 then none
    else some ((payload.drop data.sampleStart).take 4)

/-- The builder that is called for an input, and the ids from then on. -/
def Ids.input (nodeId : Nat) (ids : Ids) : Input → Ids × Option Call
  | .announce k =>
    let step := announceStep nodeId k
    (step.assign ids, some ⟨step.message (step.assign ids), fun _ => 0, 192⟩)
  | .publish i =>
    (ids, some ⟨request (.writeData ids.datawriter (littleEndian 4 i.toBitVec)), fun _ => 0, 64⟩)
  | .deliver payload =>
    (ids, (setpoint ids payload).map fun sample =>
      ⟨request (.writeData ids.pongDatawriter sample), fun _ => 0, 64⟩)

/-- The calls that a list of inputs leads to. -/
def calls (nodeId : Nat) (ids : Ids) (inputs : List Input) : List Call :=
  (outputs (Ids.input nodeId) ids inputs).reduceOption

/-- The messages of a list of calls; a message that cannot be built goes out empty. -/
def messages (s : Session) (calls : List Call) : List Bytes :=
  (Session.run s calls).map fun d => built d.built

/-! ## What the board hears -/

/-- The receiving end of the line. -/
structure Ears where
  reader : Serial.Reader
  downlink : Ctx

/-- What an op is to the node. -/
def Ears.hear (secureLink : Bool) (ears : Ears) : Op → Ears × Option Input
  | .announce k => (ears, some (.announce k))
  | .announced => (ears, none)
  | .publish i => (ears, some (.publish i))
  | .poll none => (ears, none)
  | .poll (some c) =>
    let (reader, res) := ears.reader.feed c
    match res with
    | .frameReady _ frameLen =>
      let payload := reader.payloadBuf.take frameLen.toNat
      if secureLink then
        let (downlink, sres) := ears.downlink.unwrap payload
        match sres with
        | .ok plain => (⟨reader, downlink⟩, some (.deliver plain))
        | _ => (⟨reader, downlink⟩, none)
      else (⟨reader, ears.downlink⟩, some (.deliver payload))
    | _ => (⟨reader, ears.downlink⟩, none)

def Ears.inputs (secureLink : Bool) (ears : Ears) (ops : List Op) : List Input :=
  (outputs (Ears.hear secureLink) ears ops).reduceOption

def Board.ears (b : Board) : Ears := ⟨b.reader, b.downlink⟩

/-! ## One frame -/

/-- What `send_frame` makes of a message before it is framed. -/
def envelope (secureLink : Bool) (ctx : Ctx) (message : Bytes) : Ctx × Bytes :=
  if secureLink then ctx.wrap message payloadBufLen else (ctx, message)

theorem putFrame_eq (b : Board) {payload : Bytes} (h : payload.length ≤ payloadBufLen) :
    b.putFrame payload = b.uartPut (wire serialAddr serialAddr payload) := by
  have hroom : (wire serialAddr serialAddr payload).length ≤ sendFrameBufLen := by
    have hmono : maxEncodedLen payload.length ≤ maxEncodedLen payloadBufLen := by
      unfold maxEncodedLen
      omega
    exact Nat.le_trans (length_wire_le serialAddr serialAddr payload) hmono
  have hpos : (wire serialAddr serialAddr payload).length ≠ 0 := by
    rw [wire, List.length_cons]
    exact Nat.succ_ne_zero _
  simp only [Board.putFrame, frameEncode_of_le hroom, if_neg hpos, List.take_length]

theorem fits_payload {message : Bytes} (h : message.length ≤ 256) :
    Ctx.Fits message payloadBufLen :=
  ⟨Nat.le_trans h (by decide), Nat.add_le_add_right h overhead⟩

theorem length_envelope_le (secureLink : Bool) (ctx : Ctx) {message : Bytes}
    (h : message.length ≤ 256) : (envelope secureLink ctx message).2.length ≤ payloadBufLen := by
  cases secureLink with
  | false => exact Nat.le_trans h (by decide)
  | true =>
    rw [envelope, if_pos rfl, Ctx.wrap_of_fits (fits_payload h), length_frame]
    exact Nat.add_le_add_right h overhead

/-- A message of at most 256 bytes goes out in one frame. -/
theorem sendFrame_eq (secureLink : Bool) (b : Board) {message : Bytes}
    (h : message.length ≤ 256) :
    Board.sendFrame secureLink b message =
      { b with
        uplink := (envelope secureLink b.uplink message).1
        tx := b.tx ++ wire serialAddr serialAddr (envelope secureLink b.uplink message).2 } := by
  have hlen := length_envelope_le secureLink b.uplink h
  cases secureLink with
  | false => exact putFrame_eq b hlen
  | true =>
    have hwrap : b.uplink.wrap message payloadBufLen = _ := Ctx.wrap_of_fits (fits_payload h)
    have hpos : (frame b.uplink.key b.uplink.sendCounter message).length ≠ 0 := by
      rw [length_frame]
      exact Nat.ne_of_gt (Nat.lt_of_lt_of_le (by decide) (Nat.le_add_left overhead _))
    simp only [envelope, if_true, hwrap] at hlen ⊢
    simp only [Board.sendFrame, if_true, hwrap, if_neg hpos, putFrame_eq _ hlen, Board.uartPut]

/-! ## Text -/

theorem digits_lt (n : Nat) (v : UInt32) : ∀ c ∈ digits n v, c < 58 := by
  induction n generalizing v with
  | zero => simp [digits]
  | succ n ih =>
    unfold digits
    split
    · intro c hc
      rcases List.mem_cons.mp hc with rfl | hc
      · have hdigit : (v % 10).toNat < 10 := by
          rw [UInt32.toNat_mod]
          exact Nat.mod_lt _ (by decide)
        rw [UInt8.lt_iff_toNat_lt, UInt8.toNat_ofNat']
        change (48 + (v % 10).toNat) % 256 < 58
        omega
      · exact ih (v / 10) c hc
    · simp

theorem quiet_uartPutUint (v : UInt32) : flag ∉ uartPutUint v := by
  unfold uartPutUint
  split
  · decide
  · intro hflag
    exact absurd (digits_lt 10 v flag (List.mem_reverse.mp hflag)) (by decide)

theorem quiet_uartPutInt (v : Int32) : flag ∉ uartPutInt v := by
  unfold uartPutInt
  split
  · rw [List.mem_append, not_or]
    exact ⟨by decide, quiet_uartPutUint _⟩
  · exact quiet_uartPutUint _

theorem quiet_updated (v : Int32) :
    flag ∉ ascii "setpoint updated: " ++ (uartPutInt v ++ ascii "\r\n") := by
  simp only [List.mem_append, not_or]
  exact ⟨by decide, quiet_uartPutInt v, by decide⟩

theorem quiet_labels (nodeId : Nat) :
    ∀ step ∈ (announceSteps nodeId).toList, flag ∉ ascii step.label := by
  simp only [announceSteps, Vector.toList_mk, List.forall_mem_cons]
  refine ⟨?_, ?_, ?_, ?_, ?_, ?_, ?_, ?_, ?_, ?_, ?_, ?_⟩ <;> decide

theorem quiet_label (nodeId : Nat) (k : Fin 11) :
    flag ∉ ascii (announceStep nodeId k).label :=
  quiet_labels nodeId _ (announceStep_mem nodeId k)

/-! ## Messages -/

/-- A builder stays within its buffer, which holds at least a CREATE_CLIENT. -/
theorem size_build_le {m : Message} (s : Session) (buf : Nat → UInt8) {cap : Nat}
    (hcap : 28 ≤ cap) : (m.build s buf cap).size ≤ cap := by
  cases m with
  | request stream r =>
    by_cases hsize : (r.build stream s buf cap).size = 0
    · exact hsize ▸ Nat.zero_le _
    · have hfits : r.Fits cap := by
        by_contra hnot
        exact hsize ((r.size_build_eq_zero_iff stream s buf cap).mpr hnot)
      rw [Message.build, (Request.submessageLength_build hsize).1]
      exact hfits.2
  | createClient =>
    rw [Message.build, buildCreateClient_fits s buf hcap]
    exact hcap
  | heartbeat streamIdRaw target firstUnacked lastSent =>
    have hbuild := buildHeartbeat_fits s streamIdRaw target firstUnacked lastSent buf
      (show 17 ≤ cap by omega)
    rw [Message.build, hbuild]
    exact Nat.le_trans (show 17 ≤ 28 by decide) hcap

theorem length_call_le (s : Session) (m : Message) {cap : Nat} (hcap : 28 ≤ cap)
    (hmax : cap ≤ 256) :
    (built (Session.call s ⟨m, fun _ => 0, cap⟩).2.built).length ≤ 256 := by
  rw [length_built]
  exact Nat.le_trans (size_build_le s (fun _ => 0) hcap) hmax

/-! ## One turn -/

/-- What the board has said after the call `c`, or after none: the message in one frame, and text
around it. -/
inductive Tells (secureLink : Bool) (b b' : Board) : Option Call → Prop where
  | silent {text : Bytes} (quiet : flag ∉ text) (session : b'.session = b.session)
      (uplink : b'.uplink = b.uplink) (tx : b'.tx = b.tx ++ text) : Tells secureLink b b' none
  | call {c : Call} {before behind : Bytes} (quietBefore : flag ∉ before)
      (quietBehind : flag ∉ behind) (session : b'.session = (Session.call b.session c).1)
      (uplink : b'.uplink =
        (envelope secureLink b.uplink (built (Session.call b.session c).2.built)).1)
      (short : (envelope secureLink b.uplink
        (built (Session.call b.session c).2.built)).2.length ≤ payloadBufLen)
      (tx : b'.tx = b.tx ++ (before ++ (wire serialAddr serialAddr
        (envelope secureLink b.uplink (built (Session.call b.session c).2.built)).2 ++ behind))) :
      Tells secureLink b b' (some c)

/-- A turn that the node sees as `i`, or does not see. -/
def Follows (secureLink : Bool) (nodeId : Nat) (b b' : Board) : Option Input → Prop
  | none => b'.ids = b.ids ∧ Tells secureLink b b' none
  | some i => b'.ids = (b.ids.input nodeId i).1 ∧ Tells secureLink b b' (b.ids.input nodeId i).2

/-- A builder called on the session, and `send_frame` on what it has built. -/
def Board.send (secureLink : Bool) (b : Board) (m : Message) (cap : Nat) : Board :=
  let (session, done) := Session.call b.session ⟨m, fun _ => 0, cap⟩
  Board.sendFrame secureLink { b with session } (built done.built)

section Turn

variable (secureLink : Bool) (nodeId : Nat) (b : Board)

theorem send_eq (m : Message) {cap : Nat} (hcap : 28 ≤ cap) (hmax : cap ≤ 256) :
    b.send secureLink m cap =
      { b with
        session := (Session.call b.session ⟨m, fun _ => 0, cap⟩).1
        uplink := (envelope secureLink b.uplink
          (built (Session.call b.session ⟨m, fun _ => 0, cap⟩).2.built)).1
        tx := b.tx ++ wire serialAddr serialAddr (envelope secureLink b.uplink
          (built (Session.call b.session ⟨m, fun _ => 0, cap⟩).2.built)).2 } := by
  exact sendFrame_eq secureLink _ (length_call_le b.session m hcap hmax)

/-- A message sent after some text. -/
theorem tells_send {b : Board} (b' : Board) {text : Bytes} (quiet : flag ∉ text)
    (session : b'.session = b.session) (uplink : b'.uplink = b.uplink)
    (tx : b'.tx = b.tx ++ text) (m : Message) {cap : Nat} (hcap : 28 ≤ cap) (hmax : cap ≤ 256) :
    (b'.send secureLink m cap).ears = b'.ears ∧ (b'.send secureLink m cap).ids = b'.ids ∧
      Tells secureLink b (b'.send secureLink m cap) (some ⟨m, fun _ => 0, cap⟩) := by
  have hnothing : flag ∉ ([] : Bytes) := List.not_mem_nil
  have hshort := length_envelope_le secureLink b.uplink (length_call_le b.session m hcap hmax)
  rw [send_eq secureLink b' m hcap hmax, session, uplink]
  refine ⟨rfl, rfl, .call quiet hnothing rfl rfl hshort ?_⟩
  simp only [tx, List.append_nil, List.append_assoc]

theorem follows_announce (k : Fin 11) :
    (b.announce secureLink (announceStep nodeId k)).ears = b.ears ∧
      Follows secureLink nodeId b (b.announce secureLink (announceStep nodeId k))
        (some (.announce k)) := by
  let step := announceStep nodeId k
  let ids := step.assign b.ids
  have hannounce : b.announce secureLink step =
      (({ b with ids } : Board).uartPuts step.label).send secureLink (step.message ids) 192 := rfl
  obtain ⟨hears, hids, htells⟩ := tells_send secureLink
    (({ b with ids } : Board).uartPuts step.label) (quiet_label nodeId k) (b := b) rfl rfl rfl
    (step.message ids) (show 28 ≤ 192 by decide) (by decide)
  rw [hannounce]
  exact ⟨hears, hids, htells⟩

theorem follows_publish (i : Int32) :
    (b.publish secureLink i).ears = b.ears ∧
      Follows secureLink nodeId b (b.publish secureLink i) (some (.publish i)) := by
  obtain ⟨sample, hencode, hsample⟩ : ∃ sample,
      ({ data := i } : StdMsgsInt32).encode (fun _ => 0) 16 = (some 8, sample) ∧
        ((List.range 8).map sample).drop 4 = littleEndian 4 i.toBitVec := by
    obtain ⟨hlen, hsample⟩ := encode_int32 i
    rw [headerless, hlen] at hsample
    exact ⟨_, Prod.ext hlen rfl, hsample⟩
  have hpublish : b.publish secureLink i = (((b.send secureLink (request (.writeData
      b.ids.datawriter (littleEndian 4 i.toBitVec))) 64).uartPuts "published data=").uartPut
        (uartPutUint i.toUInt32)).uartPuts "\r\n" := by
    simp only [Board.publish, hencode, hsample]
    rfl
  have hquiet : flag ∉ ascii "published data=" ++ (uartPutUint i.toUInt32 ++ ascii "\r\n") := by
    simp only [List.mem_append, not_or]
    exact ⟨by decide, quiet_uartPutUint _, by decide⟩
  have hnothing : flag ∉ ([] : Bytes) := List.not_mem_nil
  have hshort := length_envelope_le secureLink b.uplink (length_call_le b.session
    (request (.writeData b.ids.datawriter (littleEndian 4 i.toBitVec))) (show 28 ≤ 64 by decide)
    (by decide))
  rw [hpublish, send_eq secureLink b _ (by decide) (by decide)]
  refine ⟨rfl, rfl, .call hnothing hquiet rfl rfl hshort ?_⟩
  simp [Board.uartPuts, Board.uartPut]

theorem take_drop_eq {bytes : Bytes} {n : Nat} (h : n + 4 ≤ bytes.length) :
    (bytes.drop n).take 4 =
      [bytes.getD (n + 0) 0, bytes.getD (n + 1) 0, bytes.getD (n + 2) 0, bytes.getD (n + 3) 0] := by
  apply List.ext_getElem
  · simp only [List.length_take, List.length_drop, List.length_cons, List.length_nil]
    omega
  · intro i _ hi
    have hi : i < 4 := hi
    rw [List.getElem_take, List.getElem_drop]
    have hbyte : bytes.getD (n + i) 0 = bytes[n + i] := List.getD_eq_getElem _ _ (by omega)
    interval_cases i <;> exact hbyte.symm

/-- The value that a sample sets, as `handle_incoming_frame` puts it together. -/
def sampleValue (sample : Nat → UInt8) : Int32 :=
  ((sample 0).toUInt32 ||| (sample 1).toUInt32 <<< 8 ||| (sample 2).toUInt32 <<< 16 |||
    (sample 3).toUInt32 <<< 24).toInt32

/-- A payload that is no sample for the data reader is ignored, and every other one is answered
with its value. -/
theorem follows_incoming (payload : Bytes) :
    (b.handleIncomingFrame secureLink payload).ears = b.ears ∧
      Follows secureLink nodeId b (b.handleIncomingFrame secureLink payload)
        (some (.deliver payload)) := by
  have hnothing : flag ∉ ([] : Bytes) := List.not_mem_nil
  have silent : Tells secureLink b b none := .silent hnothing rfl rfl (by simp)
  simp only [Follows, Ids.input]
  cases hparse : parseData (fun i => payload.getD i 0) payload.length with
  | none =>
    simp only [Board.handleIncomingFrame, setpoint, hparse]
    exact ⟨trivial, trivial, silent⟩
  | some data =>
    by_cases hother : data.objectId ≠ b.ids.datareader ∨ data.sampleLen < 4
    · simp only [Board.handleIncomingFrame, setpoint, hparse, if_pos hother]
      exact ⟨trivial, trivial, silent⟩
    · obtain ⟨-, -, hdata⟩ := (parseData_iff _ _ _).mp hparse
      have hroom : data.sampleStart + 4 ≤ payload.length := by
        have hlong := (not_or.mp hother).2
        rw [← hdata] at hlong ⊢
        simp only [Nat.not_lt] at hlong
        simp only
        omega
      let v := sampleValue fun i => payload.getD (data.sampleStart + i) 0
      let told := ((b.uartPuts "setpoint updated: ").uartPut (uartPutInt v)).uartPuts "\r\n"
      let pong := request (.writeData b.ids.pongDatawriter ((payload.drop data.sampleStart).take 4))
      have hincoming : b.handleIncomingFrame secureLink payload = told.send secureLink pong 64 := by
        simp only [Board.handleIncomingFrame, hparse, if_neg hother, pong, take_drop_eq hroom]
        rfl
      obtain ⟨hears, hids, htells⟩ := tells_send secureLink told (quiet_updated v) (b := b) rfl rfl
        (by simp [told, Board.uartPuts, Board.uartPut]) pong (show 28 ≤ 64 by decide) (by decide)
      rw [hincoming]
      simp only [setpoint, hparse, if_neg hother, Option.map_some]
      exact ⟨hears, hids, htells⟩

/-- What a board does is the same whatever its receiving end was before. -/
theorem Follows.of_ears {reader : Serial.Reader} {downlink : Ctx} {b' : Board} {i? : Option Input}
    (h : Follows secureLink nodeId { b with reader, downlink } b' i?) :
    Follows secureLink nodeId b b' i? := by
  have htells {c? : Option Call} (h : Tells secureLink { b with reader, downlink } b' c?) :
      Tells secureLink b b' c? := by
    cases h with
    | silent quiet session uplink tx => exact .silent quiet session uplink tx
    | call quietBefore quietBehind session uplink short tx =>
      exact .call quietBefore quietBehind session uplink short tx
  cases i? with
  | none => exact ⟨h.1, htells h.2⟩
  | some i => exact ⟨h.1, htells h.2⟩

theorem follows_poll (c : Option UInt8) :
    (b.poll secureLink c).ears = (b.ears.hear secureLink (.poll c)).1 ∧
      Follows secureLink nodeId b (b.poll secureLink c) (b.ears.hear secureLink (.poll c)).2 := by
  have hnothing : flag ∉ ([] : Bytes) := List.not_mem_nil
  cases c with
  | none => exact ⟨rfl, rfl, .silent hnothing rfl rfl (by simp [Board.poll])⟩
  | some c =>
    simp only [Board.poll, Ears.hear, Board.ears]
    rcases hfeed : b.reader.feed c with ⟨reader, res⟩
    cases res with
    | inProgress | error => exact ⟨rfl, rfl, .silent hnothing rfl rfl (by simp)⟩
    | frameReady src len =>
      cases secureLink with
      | false =>
        have hincoming := follows_incoming false nodeId { b with reader }
          (reader.payloadBuf.take len.toNat)
        exact ⟨hincoming.1, hincoming.2.of_ears⟩
      | true =>
        simp only [if_true]
        rcases hunwrap : b.downlink.unwrap (reader.payloadBuf.take len.toNat) with ⟨downlink, sres⟩
        cases sres with
        | ok plain =>
          have hincoming := follows_incoming true nodeId { b with reader, downlink } plain
          exact ⟨hincoming.1, hincoming.2.of_ears⟩
        | tooShort | badTag | replayed =>
          exact ⟨rfl, rfl, .silent
            (show flag ∉ ascii "REJECTED downlink frame (auth failed)\r\n" by decide) rfl rfl rfl⟩

/-- A turn of the board is a turn of its ears and of the node behind them. -/
theorem follows_step (op : Op) :
    (step secureLink nodeId b op).ears = (b.ears.hear secureLink op).1 ∧
      Follows secureLink nodeId b (step secureLink nodeId b op)
        (b.ears.hear secureLink op).2 := by
  cases op with
  | announce k => exact follows_announce secureLink nodeId b k
  | announced => exact ⟨rfl, rfl, .silent (by decide) rfl rfl rfl⟩
  | publish i => exact follows_publish secureLink nodeId b i
  | poll c => exact follows_poll secureLink nodeId b c

end Turn

/-! ## Whole runs -/

theorem outputs_cons_reduceOption {σ α β : Type} (step : σ → α → σ × Option β) (s : σ) (a : α)
    (as : List α) : (outputs step s (a :: as)).reduceOption =
      (step s a).2.toList ++ (outputs step (step s a).1 as).reduceOption := by
  rw [outputs]
  cases (step s a).2 with
  | none => rfl
  | some b => rfl

theorem inputs_cons (secureLink : Bool) (ears : Ears) (op : Op) (ops : List Op) :
    ears.inputs secureLink (op :: ops) = (ears.hear secureLink op).2.toList ++
      (ears.hear secureLink op).1.inputs secureLink ops :=
  outputs_cons_reduceOption _ ears op ops

theorem calls_cons (nodeId : Nat) (ids : Ids) (i : Input) (is : List Input) :
    calls nodeId ids (i :: is) =
      (ids.input nodeId i).2.toList ++ calls nodeId (ids.input nodeId i).1 is :=
  outputs_cons_reduceOption _ ids i is

theorem messages_cons (s : Session) (c : Call) (cs : List Call) :
    messages s (c :: cs) = built (Session.call s c).2.built :: messages (Session.call s c).1 cs :=
  rfl

/-- The messages of the node of a board for a list of inputs. -/
def Board.sends (nodeId : Nat) (b : Board) (inputs : List Input) : List Bytes :=
  messages b.session (calls nodeId b.ids inputs)

/-- The line carries what a turn's call has built, in front of what is to come. -/
theorem Tells.speaks {secureLink : Bool} {b b' : Board} {c? : Option Call}
    (h : Tells secureLink b b' c?) {cs : List Call} {out : Bytes}
    (rest : Speaks serialAddr serialAddr out
      (outputs (envelope secureLink) b'.uplink (messages b'.session cs))) :
    ∃ now, b'.tx = b.tx ++ now ∧ Speaks serialAddr serialAddr (now ++ out)
      (outputs (envelope secureLink) b.uplink (messages b.session (c?.toList ++ cs))) := by
  cases h with
  | @silent text quiet session uplink tx =>
    rw [session, uplink] at rest
    exact ⟨text, tx, rest.text quiet⟩
  | @call c before behind quietBefore quietBehind session uplink short tx =>
    rw [session, uplink] at rest
    have hshort : _ ≤ 65535 := Nat.le_trans short (by decide)
    refine ⟨_, tx, ?_⟩
    simpa [messages_cons, outputs] using ((rest.text quietBehind).frame hshort).text quietBefore

/-- What a run adds to the line: text, and one frame for each message the node's calls build. -/
theorem run_speaks (secureLink : Bool) (nodeId : Nat) (ops : List Op) (b : Board) :
    ∃ out, (run secureLink nodeId b ops).tx = b.tx ++ out ∧
      Speaks serialAddr serialAddr out (outputs (envelope secureLink) b.uplink
        (b.sends nodeId (b.ears.inputs secureLink ops))) := by
  induction ops generalizing b with
  | nil => exact ⟨[], by simp [run], .nil⟩
  | cons op ops ih =>
    obtain ⟨out, htx, rest⟩ := ih (step secureLink nodeId b op)
    obtain ⟨hears, hfollows⟩ := follows_step secureLink nodeId b op
    rw [hears] at rest
    rw [inputs_cons]
    cases hinput : (b.ears.hear secureLink op).2 with
    | none =>
      rw [hinput] at hfollows
      obtain ⟨hids, htells⟩ := hfollows
      rw [Board.sends, hids] at rest
      obtain ⟨now, hnow, hspeaks⟩ := htells.speaks rest
      exact ⟨now ++ out, by rw [run, List.foldl_cons, ← run, htx, hnow, List.append_assoc],
        hspeaks⟩
    | some i =>
      rw [hinput] at hfollows
      obtain ⟨hids, htells⟩ := hfollows
      rw [Board.sends, hids] at rest
      obtain ⟨now, hnow, hspeaks⟩ := htells.speaks rest
      refine ⟨now ++ out, by rw [run, List.foldl_cons, ← run, htx, hnow, List.append_assoc], ?_⟩
      rw [Option.toList_some, List.singleton_append, Board.sends, calls_cons]
      exact hspeaks

/-- The message of a turn's call comes in front of those of later calls. -/
theorem Tells.messages {secureLink : Bool} {b b' : Board} {c? : Option Call}
    (h : Tells secureLink b b' c?) :
    ∃ now, ∀ cs, messages b.session (c?.toList ++ cs) = now ++ messages b'.session cs := by
  cases h with
  | silent _ session => exact ⟨[], fun cs => by rw [session]; rfl⟩
  | @call c _ _ _ _ session => exact ⟨[_], fun cs => by rw [session]; rfl⟩

theorem Follows.sends {secureLink : Bool} {nodeId : Nat} {b b' : Board} {i? : Option Input}
    (h : Follows secureLink nodeId b b' i?) :
    ∃ now, ∀ inputs, b.sends nodeId (i?.toList ++ inputs) = now ++ b'.sends nodeId inputs := by
  cases i? with
  | none =>
    obtain ⟨now, hnow⟩ := h.2.messages
    refine ⟨now, fun inputs => ?_⟩
    rw [Board.sends, Board.sends, h.1, ← hnow]
    rfl
  | some i =>
    obtain ⟨now, hnow⟩ := h.2.messages
    refine ⟨now, fun inputs => ?_⟩
    rw [Option.toList_some, List.singleton_append, Board.sends, calls_cons, hnow, Board.sends, h.1]

theorem run_append (secureLink : Bool) (nodeId : Nat) (b : Board) (ops ops' : List Op) :
    run secureLink nodeId b (ops ++ ops') =
      run secureLink nodeId (run secureLink nodeId b ops) ops' := List.foldl_append

/-- What a run sends is what its parts send, one after the other. -/
theorem sends_append (secureLink : Bool) (nodeId : Nat) (ops ops' : List Op) (b : Board) :
    b.sends nodeId (b.ears.inputs secureLink (ops ++ ops')) =
      b.sends nodeId (b.ears.inputs secureLink ops) ++
        (run secureLink nodeId b ops).sends nodeId
          ((run secureLink nodeId b ops).ears.inputs secureLink ops') := by
  induction ops generalizing b with
  | nil => rfl
  | cons op ops ih =>
    obtain ⟨hears, hfollows⟩ := follows_step secureLink nodeId b op
    obtain ⟨now, hnow⟩ := hfollows.sends
    have hrest := ih (step secureLink nodeId b op)
    rw [hears] at hrest
    rw [List.cons_append, inputs_cons, inputs_cons, hnow, hnow, hrest, List.append_assoc]
    rfl

/-! ## What a peer hears -/

/-- Every message of the firmware was built in a buffer of at most 192 bytes. -/
theorem length_sends_le {nodeId : Nat} {b : Board} {inputs : List Input} {m : Bytes}
    (h : m ∈ b.sends nodeId inputs) : m.length ≤ 256 := by
  obtain ⟨d, hd, rfl⟩ := List.mem_map.mp h
  obtain ⟨s, c, hc, rfl⟩ := exists_of_mem_outputs hd
  obtain ⟨ids, i, -, hcall⟩ := exists_of_mem_outputs (List.reduceOption_mem_iff.mp hc)
  cases i with
  | announce k =>
    obtain rfl := Option.some.inj hcall
    exact length_call_le s _ (by decide) (by decide)
  | publish i =>
    obtain rfl := Option.some.inj hcall
    exact length_call_le s _ (by decide) (by decide)
  | deliver payload =>
    obtain ⟨sample, -, rfl⟩ := Option.map_eq_some_iff.mp hcall.symm
    exact length_call_le s _ (by decide) (by decide)

theorem outputs_envelope_plain (ctx : Ctx) (ms : List Bytes) :
    outputs (envelope false) ctx ms = ms := by
  induction ms with
  | nil => rfl
  | cons m ms ih => exact congrArg (m :: ·) ih

theorem outputs_envelope_secure {ctx : Ctx} {c : Nat} (hc : ctx.sendCounter = UInt32.ofNat c)
    {ms : List Bytes} (short : ∀ m ∈ ms, m.length ≤ 256) :
    outputs (envelope true) ctx ms = frames ctx.key c ms := by
  induction ms generalizing ctx c with
  | nil => rfl
  | cons m ms ih =>
    have hwrap : ctx.wrap m payloadBufLen = _ :=
      Ctx.wrap_of_fits (fits_payload (short m List.mem_cons_self))
    have hrest : outputs (envelope true) { ctx with sendCounter := ctx.sendCounter + 1 } ms = _ :=
      ih (c := c + 1) (by rw [hc, UInt32.ofNat_add]; rfl) fun m hm =>
        short m (List.mem_cons_of_mem _ hm)
    rw [frames_cons, ← hc, ← hrest]
    simp only [outputs, envelope, if_true, hwrap]

/-- The payloads that a reader with the address of the firmware hears. -/
def heard (buf line : Bytes) : List Bytes :=
  ((Reader.init serialAddr buf buf.length).feedAll line).2.filterMap Reader.Event.payload?

theorem ascii_append (s t : String) : ascii (s ++ t) = ascii s ++ ascii t := by
  simp [ascii]

theorem boot_speaks (secureLink : Bool) (nodeId : Nat) (key : Bytes) :
    Speaks serialAddr serialAddr (boot secureLink nodeId key).tx [] := by
  have booting : flag ∉ ascii "RTOS ROS2 demo: booting, sending XRCE frames over UART1\r\n" := by
    decide
  have enabled : flag ∉ ascii ("SECURE_LINK enabled: every frame HMAC-authenticated, " ++
      "point this at host/secure_gateway.c, not a bare agent\r\n") := by
    rw [ascii_append, List.mem_append, not_or]
    exact ⟨by decide, by decide⟩
  have quiet : flag ∉ (boot secureLink nodeId key).tx := by
    cases secureLink with
    | false => exact booting
    | true => exact fun h => (List.mem_append.mp h).elim booting enabled
  simpa using Speaks.nil.text quiet

/-- What a receiver with the firmware's key makes of the payloads; on a plain link they are the
messages. -/
def opened (secureLink : Bool) (key : Bytes) (payloads : List Bytes) : List Secure.Result :=
  if secureLink then (Ctx.init key).unwrapAll payloads else payloads.map .ok

/-- In every run of the firmware a reader with room for its frames hears the messages that the
node's calls build, one after the other and nothing else; on a secured link its receiver accepts
each of them. -/
theorem line_carries (secureLink : Bool) (nodeId : Nat) (key : Bytes) (ops : List Op) {buf : Bytes}
    (room : payloadBufLen ≤ buf.length) :
    let start := boot secureLink nodeId key
    let sent := start.sends nodeId (start.ears.inputs secureLink ops)
    (secureLink = true → sent.length ≤ 2 ^ 32) →
      opened secureLink key (heard buf (run secureLink nodeId start ops).tx) = sent.map .ok := by
  intro start sent few
  obtain ⟨out, htx, hspeaks⟩ := run_speaks secureLink nodeId ops start
  have short : ∀ m ∈ sent, m.length ≤ 256 := fun m hm => length_sends_le hm
  have hspeaks := (boot_speaks secureLink nodeId key).append hspeaks
  rw [← htx, List.nil_append] at hspeaks
  have hheard : heard buf (run secureLink nodeId start ops).tx =
      (outputs (envelope secureLink) start.uplink sent).filter fun w => w.length ≤ buf.length :=
    (hspeaks.heard (tracks_init serialAddr buf)).2
  cases secureLink with
  | false =>
    have fits : ∀ m ∈ sent, m.length ≤ buf.length := fun m hm =>
      Nat.le_trans (short m hm) (Nat.le_trans (by decide) room)
    rw [outputs_envelope_plain, List.filter_eq_self.mpr (by simpa using fits)] at hheard
    rw [opened, hheard]
    rfl
  | true =>
    have fits : ∀ w ∈ frames key 0 sent, w.length ≤ buf.length := by
      intro w hw
      obtain ⟨⟨m, k⟩, hm, rfl⟩ := List.mem_map.mp hw
      rw [length_frame]
      exact Nat.le_trans (Nat.add_le_add_right (short m (List.fst_mem_of_mem_zipIdx hm)) _) room
    have henvelopes : outputs (envelope true) start.uplink sent = frames key 0 sent :=
      outputs_envelope_secure (c := 0) rfl short
    rw [henvelopes, List.filter_eq_self.mpr (by simpa using fits)] at hheard
    rw [opened, if_pos rfl, hheard]
    have hlen := few rfl
    exact Ctx.unwrapAll_frames rfl (fun m hm => Nat.le_trans (short m hm) (by decide))
      (Nat.zero_le _) (by omega)

end RtosXrce.Arm.Ros2Demo
