import RtosXrce.Xrce.SecureTransport
import RtosXrce.Xrce.SerialTransport
import RtosXrce.Xrce.Samples
import RtosXrce.Xrce.SessionRuns

/-!
# The firmware of the board: `ros2_demo.c`

One UART carries the frames and the text for the console. `secureLink` is the build option
`SECURE_LINK`, `nodeId` the option `NODE_ID`. What `main` does between two bytes of the UART is an
`Op`; `Op.poll` is one turn of the loop of `pace_and_poll_rx`.
-/

namespace RtosXrce.Arm.Ros2Demo

open Library Xrce Xrce.Cdr Xrce.Serial Xrce.Secure Xrce.Session Xrce.Msgs

/-! ## Text -/

def ascii (s : String) : Bytes := s.toList.map fun c => UInt8.ofNat c.toNat

/-- The first loop of `uart_put_uint`: at most `n` more digits, the lowest first. -/
def digits : Nat → UInt32 → Bytes
  | 0, _ => []
  | n + 1, v => if 0 < v then UInt8.ofNat (48 + (v % 10).toNat) :: digits n (v / 10) else []

/-- `uart_put_uint`. -/
def uartPutUint (v : UInt32) : Bytes := if v = 0 then ascii "0" else (digits 10 v).reverse

/-- `uart_put_int`. -/
def uartPutInt (v : Int32) : Bytes :=
  if v < 0 then ascii "-" ++ uartPutUint (UInt32.ofNat (-v.toInt).toNat)
  else uartPutUint v.toUInt32

/-! ## The board -/

/-- The `g_..._id`. -/
structure Ids where
  participant : ObjectId := ⟨0, 0⟩
  topic : ObjectId := ⟨0, 0⟩
  publisher : ObjectId := ⟨0, 0⟩
  datawriter : ObjectId := ⟨0, 0⟩
  cmdTopic : ObjectId := ⟨0, 0⟩
  subscriber : ObjectId := ⟨0, 0⟩
  datareader : ObjectId := ⟨0, 0⟩
  pongTopic : ObjectId := ⟨0, 0⟩
  pongDatawriter : ObjectId := ⟨0, 0⟩

/-- `xrce_session_t` and the globals; `tx` is all that went out on the UART. -/
structure Board where
  session : Session
  ids : Ids
  reader : Serial.Reader
  uplink : Ctx
  downlink : Ctx
  tx : Bytes

/-- `SERIAL_LOCAL_ADDR` and `SERIAL_REMOTE_ADDR`. -/
abbrev serialAddr : UInt8 := 0x00

/-- `BEST_EFFORT_STREAM_0`. -/
abbrev bestEffortStream0 : UInt8 := 1

/-- `sizeof(g_rx_payload_buf)`, also that of `wrapped`. -/
abbrev payloadBufLen : Nat := 256 + overhead

/-- `SEND_FRAME_BUF_LEN`. -/
abbrev sendFrameBufLen : Nat := maxEncodedLen (256 + overhead)

/-- `REANNOUNCE_EVERY_N_PUBLISHES`. -/
abbrev reannounceEveryNPublishes : Int32 := 200

namespace Board

/-- `uart_putc` for each of the bytes. -/
def uartPut (b : Board) (bytes : Bytes) : Board := { b with tx := b.tx ++ bytes }

/-- `uart_puts`. -/
def uartPuts (b : Board) (s : String) : Board := b.uartPut (ascii s)

/-- The part of `send_frame` behind `xrce_secure_wrap`. -/
def putFrame (b : Board) (payload : Bytes) : Board :=
  let (frameLen, frame) := frameEncode sendFrameBufLen serialAddr serialAddr payload
  if frameLen = 0 then b.uartPuts "ERROR: send_frame buffer too small for this payload\r\n"
  else b.uartPut (frame.take frameLen)

/-- `send_frame`. -/
def sendFrame (secureLink : Bool) (b : Board) (payload : Bytes) : Board :=
  if secureLink then
    let (ctx, wrapped) := b.uplink.wrap payload payloadBufLen
    let b := { b with uplink := ctx }
    if wrapped.length = 0 then b.uartPuts "ERROR: secure wrap failed (payload too large)\r\n"
    else b.putFrame wrapped
  else b.putFrame payload

/-- `handle_incoming_frame`. -/
def handleIncomingFrame (secureLink : Bool) (b : Board) (payload : Bytes) : Board :=
  match parseData (fun i => payload.getD i 0) payload.length with
  | none => b
  | some data =>
    if data.objectId ≠ b.ids.datareader ∨ data.sampleLen < 4 then b
    else
      let sample (i : Nat) : UInt8 := payload.getD (data.sampleStart + i) 0
      let setpoint := ((sample 0).toUInt32 ||| (sample 1).toUInt32 <<< 8 |||
        (sample 2).toUInt32 <<< 16 ||| (sample 3).toUInt32 <<< 24).toInt32
      let b := ((b.uartPuts "setpoint updated: ").uartPut (uartPutInt setpoint)).uartPuts "\r\n"
      let msg := buildWriteData bestEffortStream0 b.ids.pongDatawriter
        [sample 0, sample 1, sample 2, sample 3] b.session (fun _ => 0) 64
      sendFrame secureLink { b with session := msg.session } (built msg)

/-- One turn of the loop of `pace_and_poll_rx`, with what `uart_getc_nonblocking` returns. -/
def poll (secureLink : Bool) (b : Board) : Option UInt8 → Board
  | none => b
  | some c =>
    let (reader, res) := b.reader.feed c
    let b := { b with reader }
    match res with
    | .frameReady _ frameLen =>
      let payload := b.reader.payloadBuf.take frameLen.toNat
      if secureLink then
        let (ctx, sres) := b.downlink.unwrap payload
        let b := { b with downlink := ctx }
        match sres with
        | .ok plain => handleIncomingFrame secureLink b plain
        | _ => b.uartPuts "REJECTED downlink frame (auth failed)\r\n"
      else handleIncomingFrame secureLink b payload
    | _ => b

end Board

/-! ## The entities -/

/-- A step of `announce_entities`: the global it sets, the line it prints and what it sends. -/
structure Step where
  assign : Ids → Ids
  label : String
  message : Ids → Message

section Entities

/-- `NODE_SUFFIX`. -/
def nodeSuffix (nodeId : Nat) : String := if nodeId = 0 then "" else "_" ++ toString nodeId

def xml (s : String) : CString := CString.ofBytes (ascii s)

/-- The XML of a topic, and of a data writer or reader on it. -/
def topicXml (nodeId : Nat) (name : String) : CString :=
  xml ("<dds><topic><name>rt/" ++ name ++ nodeSuffix nodeId ++ "</name>" ++
    "<dataType>std_msgs::msg::dds_::Int32_</dataType></topic></dds>")

def endpointXml (nodeId : Nat) (kind name : String) : CString :=
  xml ("<dds><" ++ kind ++ "><topic><kind>NO_KEY</kind><name>rt/" ++ name ++ nodeSuffix nodeId ++
    "</name><dataType>std_msgs::msg::dds_::Int32_</dataType></topic></" ++ kind ++ "></dds>")

/-- The `XRCE_OBJK_` constants. -/
abbrev objkParticipant : UInt8 := 0x01
abbrev objkTopic : UInt8 := 0x02
abbrev objkPublisher : UInt8 := 0x03
abbrev objkSubscriber : UInt8 := 0x04
abbrev objkDatawriter : UInt8 := 0x05
abbrev objkDatareader : UInt8 := 0x06

def request (r : Request) : Message := .request bestEffortStream0 r

/-- The steps of `announce_entities` in order. -/
def announceSteps (nodeId : Nat) : Vector Step 11 := #v[
  ⟨fun ids => ids, "-> CREATE_CLIENT\r\n", fun _ => .createClient⟩,
  ⟨fun ids => { ids with participant := ⟨0x001, objkParticipant⟩ },
    "-> CREATE participant\r\n", fun ids => request (.createParticipant ids.participant 0
      (xml ("<dds><participant><rtps><name>rtos_qemu_demo" ++ nodeSuffix nodeId ++
        "</name></rtps></participant></dds>")))⟩,
  ⟨fun ids => { ids with topic := ⟨0x001, objkTopic⟩ }, "-> CREATE topic (rt/chatter)\r\n",
    fun ids => request (.createXml ids.topic ids.participant (topicXml nodeId "chatter"))⟩,
  ⟨fun ids => { ids with publisher := ⟨0x001, objkPublisher⟩ }, "-> CREATE publisher\r\n",
    fun ids => request (.createXml ids.publisher ids.participant (xml ""))⟩,
  ⟨fun ids => { ids with datawriter := ⟨0x001, objkDatawriter⟩ }, "-> CREATE datawriter\r\n",
    fun ids => request (.createXml ids.datawriter ids.publisher
      (endpointXml nodeId "data_writer" "chatter"))⟩,
  ⟨fun ids => { ids with cmdTopic := ⟨0x002, objkTopic⟩ }, "-> CREATE topic (rt/setpoint)\r\n",
    fun ids => request (.createXml ids.cmdTopic ids.participant (topicXml nodeId "setpoint"))⟩,
  ⟨fun ids => { ids with subscriber := ⟨0x001, objkSubscriber⟩ }, "-> CREATE subscriber\r\n",
    fun ids => request (.createXml ids.subscriber ids.participant (xml ""))⟩,
  ⟨fun ids => { ids with datareader := ⟨0x001, objkDatareader⟩ }, "-> CREATE datareader\r\n",
    fun ids => request (.createXml ids.datareader ids.subscriber
      (endpointXml nodeId "data_reader" "setpoint"))⟩,
  ⟨fun ids => ids, "-> READ_DATA (rt/setpoint)\r\n",
    fun ids => request (.readData ids.datareader bestEffortStream0)⟩,
  ⟨fun ids => { ids with pongTopic := ⟨0x003, objkTopic⟩ }, "-> CREATE topic (rt/pong)\r\n",
    fun ids => request (.createXml ids.pongTopic ids.participant (topicXml nodeId "pong"))⟩,
  ⟨fun ids => { ids with pongDatawriter := ⟨0x002, objkDatawriter⟩ },
    "-> CREATE datawriter (rt/pong)\r\n", fun ids => request (.createXml ids.pongDatawriter
      ids.publisher (endpointXml nodeId "data_writer" "pong"))⟩]

def announceStep (nodeId : Nat) (k : Fin 11) : Step := (announceSteps nodeId)[k]

/-- What holds of each of the steps holds of the `k`-th. -/
theorem announceStep_mem (nodeId : Nat) (k : Fin 11) :
    announceStep nodeId k ∈ (announceSteps nodeId).toList :=
  Vector.mem_toList_iff.mpr (Vector.getElem_mem k.isLt)

end Entities

/-! ## Runs -/

namespace Board

/-- A step of `announce_entities`, up to its poll. -/
def announce (secureLink : Bool) (b : Board) (step : Step) : Board :=
  let ids := step.assign b.ids
  let b := ({ b with ids }).uartPuts step.label
  let msg := (step.message ids).build b.session (fun _ => 0) 192
  sendFrame secureLink { b with session := msg.session } (built msg)

/-- A turn of the loop of `main`, up to its poll. After a failed encode, `main` loops for ever. -/
def publish (secureLink : Bool) (b : Board) (i : Int32) : Board :=
  match ({ data := i } : StdMsgsInt32).encode (fun _ => 0) 16 with
  | (none, _) => b.uartPuts "ERROR: encode failed\r\n"
  | (some sampleLen, sample) =>
    let msg := buildWriteData bestEffortStream0 b.ids.datawriter
      (((List.range sampleLen).map sample).drop 4) b.session (fun _ => 0) 64
    let b := sendFrame secureLink { b with session := msg.session } (built msg)
    ((b.uartPuts "published data=").uartPut (uartPutUint i.toUInt32)).uartPuts "\r\n"

end Board

inductive Op where
  | announce (k : Fin 11)
  /-- The line between the first `announce_entities` and the loop. -/
  | announced
  | publish (i : Int32)
  | poll (c : Option UInt8)

def step (secureLink : Bool) (nodeId : Nat) (b : Board) : Op → Board
  | .announce k => b.announce secureLink (announceStep nodeId k)
  | .announced =>
    b.uartPuts "Publishing std_msgs/Int32 on rt/chatter, watching rt/setpoint...\r\n"
  | .publish i => b.publish secureLink i
  | .poll c => b.poll secureLink c

def run (secureLink : Bool) (nodeId : Nat) (b : Board) (ops : List Op) : Board :=
  ops.foldl (step secureLink nodeId) b

/-- `main` up to the first `announce_entities`. -/
def boot (secureLink : Bool) (nodeId : Nat) (key : Bytes) : Board :=
  let b : Board :=
    { session := .init 0x01 #v[0x52, 0x54, 0x4F, UInt8.ofNat (0x53 + nodeId)] 512
      ids := {}
      reader := .init serialAddr (.replicate payloadBufLen 0) payloadBufLen
      uplink := .init key
      downlink := .init key
      tx := ascii "RTOS ROS2 demo: booting, sending XRCE frames over UART1\r\n" }
  if secureLink then
    b.uartPuts ("SECURE_LINK enabled: every frame HMAC-authenticated, " ++
      "point this at host/secure_gateway.c, not a bare agent\r\n")
  else b

/-- What `uart_getc_nonblocking` returns during the polls of `main`, poll by poll. -/
abbrev Received := Nat → List (Option UInt8)

/-- `announce_entities`, whose first poll is the `n`-th. -/
def announceEntities (rx : Received) (n : Nat) : List Op :=
  (List.finRange 11).flatMap fun k => .announce k :: (rx (n + k)).map .poll

/-- The loop of `main` from `i` on for a number of turns, with the `n`-th poll next. -/
def turns (rx : Received) : Nat → Int32 → Nat → List Op
  | 0, _, _ => []
  | count + 1, i, n =>
    if 0 < i ∧ i % reannounceEveryNPublishes = 0 then
      announceEntities rx n ++ (.publish i :: (rx (n + 11)).map .poll) ++
        turns rx count (i + 1) (n + 12)
    else (.publish i :: (rx n).map .poll) ++ turns rx count (i + 1) (n + 1)

/-- `main` with so many turns of its loop. -/
def main (rx : Received) (count : Nat) : List Op :=
  announceEntities rx 0 ++ .announced :: turns rx count 0 11

end RtosXrce.Arm.Ros2Demo
