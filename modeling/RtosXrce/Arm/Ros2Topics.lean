import RtosXrce.Arm.Ros2Line

/-!
# What the board publishes

The agent sorts the board's WRITE_DATA messages by their data writers. Once the entities are
announced, `rt/chatter` carries the values of the loop of `main` and `rt/pong` the values set
through `rt/setpoint`, each in order and each once.
-/

namespace RtosXrce.Arm.Ros2Demo

open Library Xrce Xrce.Cdr Xrce.Serial Xrce.Secure Xrce.Session Xrce.Msgs

/-! ## Calls and samples -/

/-- A call for a sample that fits. -/
theorem sampleFor_sample {s : Session} (hs : s.sessionId < 0x80) {oid : ObjectId} (wf : oid.Wf)
    {sample : Bytes} (short : sample.length ≤ 48) (writer : ObjectId) :
    sampleFor writer
        (built (Session.call s ⟨request (.writeData oid sample), fun _ => 0, 64⟩).2.built) =
      if oid = writer then some sample else none := by
  have hfits : Request.Fits (.writeData oid sample) 64 := ⟨trivial, Nat.add_le_add_left short 16⟩
  obtain ⟨body, hbody, -, hbuilt⟩ := built_of_fits hfits s bestEffortStream0
  obtain rfl := Option.some.inj hbody
  exact hbuilt ▸ sampleFor_writeData bestEffortStream0 sample hs wf writer

/-- The message is no WRITE_DATA. -/
def Silent : Message → Prop
  | .request _ (.writeData ..) => False
  | _ => True

theorem built_store (size : Nat) (s : Session) {bytes : Bytes} (h : bytes.length = size) :
    built ⟨size, s, store (fun _ => 0) 0 bytes⟩ = bytes :=
  h ▸ bytesOf_store _ bytes

/-- Any other call, whether its message can be built or not. -/
theorem sampleFor_silent {s : Session} (hs : s.sessionId < 0x80) {m : Message} (silent : Silent m)
    {cap : Nat} (hcap : 28 ≤ cap) (writer : ObjectId) :
    sampleFor writer (built (Session.call s ⟨m, fun _ => 0, cap⟩).2.built) = none := by
  simp only [Session.call]
  cases m with
  | request stream r =>
    by_cases hfits : r.Fits cap
    · obtain ⟨body, -, -, hbuilt⟩ := built_of_fits hfits s stream
      have hid : r.submessageId ≠ submsgWriteData := by
        cases r with
        | writeData oid sample => exact silent.elim
        | createParticipant | createXml => exact show submsgCreate ≠ _ by decide
        | readData => exact show submsgReadData ≠ _ by decide
        | delete => exact show submsgDelete ≠ _ by decide
      rw [Message.build, hbuilt]
      exact sampleFor_prefixed _ stream hs hid _ _ writer
    · have hzero := (r.size_build_eq_zero_iff stream s (fun _ => 0) cap).mpr hfits
      have hnil : built (r.build stream s (fun _ => 0) cap) = [] := by
        rw [built, hzero]
        rfl
      rw [Message.build, hnil, sampleFor_nil]
  | createClient =>
    have hlen := length_clientBytes s
    rw [Message.build, buildCreateClient_fits s _ hcap, built_store]
    · have hinit : (init 0 s.clientKey 0).sessionId < 0x80 := show (0 : UInt8) < 0x80 by decide
      exact sampleFor_prefixed _ 0 hinit (by decide) _ _ writer
    · rw [List.length_append, length_prefixBytes, hlen]
  | heartbeat streamIdRaw target firstUnacked lastSent =>
    have hbuild := buildHeartbeat_fits s streamIdRaw target firstUnacked lastSent (fun _ => 0)
      (show 17 ≤ cap by omega)
    have hother : submsgHeartbeat ≠ submsgWriteData := by decide
    rw [Message.build, hbuild, built_store]
    · exact sampleFor_prefixed (s := { s with outSeqNum := 0 }) _ 0 hs hother _ _ writer
    · rw [List.length_append, length_prefixBytes]
      rfl

/-! ## The node after its entities are announced -/

/-- The ids that `announce_entities` sets. -/
def announcedIds : Ids where
  participant := ⟨0x001, objkParticipant⟩
  topic := ⟨0x001, objkTopic⟩
  publisher := ⟨0x001, objkPublisher⟩
  datawriter := ⟨0x001, objkDatawriter⟩
  cmdTopic := ⟨0x002, objkTopic⟩
  subscriber := ⟨0x001, objkSubscriber⟩
  datareader := ⟨0x001, objkDatareader⟩
  pongTopic := ⟨0x003, objkTopic⟩
  pongDatawriter := ⟨0x002, objkDatawriter⟩

/-- A step of `announce_entities` sets an id to what it is from the first time on. -/
theorem assign_announcedIds (nodeId : Nat) (k : Fin 11) :
    (announceStep nodeId k).assign announcedIds = announcedIds := by
  have hsteps : ∀ step ∈ (announceSteps nodeId).toList,
      step.assign announcedIds = announcedIds := by
    simp only [announceSteps, Vector.toList_mk, List.forall_mem_cons]
    refine ⟨?_, ?_, ?_, ?_, ?_, ?_, ?_, ?_, ?_, ?_, ?_, by simp⟩ <;> trivial
  exact hsteps _ (announceStep_mem nodeId k)

theorem silent_announce (nodeId : Nat) (k : Fin 11) (ids : Ids) :
    Silent ((announceStep nodeId k).message ids) := by
  have hsteps : ∀ step ∈ (announceSteps nodeId).toList, Silent (step.message ids) := by
    simp only [announceSteps, Vector.toList_mk, List.forall_mem_cons]
    refine ⟨?_, ?_, ?_, ?_, ?_, ?_, ?_, ?_, ?_, ?_, ?_, by simp⟩ <;> trivial
  exact hsteps _ (announceStep_mem nodeId k)

theorem sessionId_call (s : Session) (c : Call) :
    (Session.call s c).1.sessionId = s.sessionId := by
  obtain ⟨m, buf, cap⟩ := c
  cases m with
  | request stream r =>
    have hsession := r.session_build stream s buf cap
    change (r.build stream s buf cap).session.sessionId = _
    rw [hsession]
    split
    · rfl
    · split <;> rfl
  | createClient => exact congrArg Session.sessionId (session_buildControl _ _ _ s buf cap)
  | heartbeat => exact congrArg Session.sessionId (session_buildControl _ _ _ s buf cap)

/-- What an input puts on the topic of a data writer. -/
def topicSample (writer : ObjectId) : Input → Option Bytes
  | .announce _ => none
  | .publish i =>
    if announcedIds.datawriter = writer then some (littleEndian 4 i.toBitVec) else none
  | .deliver payload => (setpoint announcedIds payload).bind fun sample =>
    if announcedIds.pongDatawriter = writer then some sample else none

theorem length_setpoint {ids : Ids} {payload sample : Bytes}
    (h : setpoint ids payload = some sample) : sample.length ≤ 4 := by
  unfold setpoint at h
  split at h
  · cases h
  · split at h
    · cases h
    · obtain rfl := Option.some.inj h
      exact List.length_take_le 4 _

/-- The samples of a data writer among the messages of an announced node. -/
theorem filterMap_messages (nodeId : Nat) (writer : ObjectId) (inputs : List Input) {s : Session}
    (hs : s.sessionId < 0x80) :
    (messages s (calls nodeId announcedIds inputs)).filterMap (sampleFor writer) =
      inputs.filterMap (topicSample writer) := by
  induction inputs generalizing s with
  | nil => rfl
  | cons i inputs ih =>
    have hnext (c : Call) : (Session.call s c).1.sessionId < 0x80 := by rwa [sessionId_call]
    rw [calls_cons]
    cases i with
    | announce k =>
      have hnone := sampleFor_silent hs (silent_announce nodeId k announcedIds)
        (show 28 ≤ 192 by decide) writer
      simp only [Ids.input, assign_announcedIds, Option.toList_some, List.singleton_append,
        messages_cons, List.filterMap_cons, hnone, topicSample]
      exact ih (hnext _)
    | publish i =>
      have wf : announcedIds.datawriter.Wf := ⟨by decide, by decide⟩
      have hsample := sampleFor_sample hs wf
        (show (littleEndian 4 i.toBitVec).length ≤ 48 by simp) writer
      simp only [Ids.input, Option.toList_some, List.singleton_append, messages_cons,
        List.filterMap_cons, hsample, topicSample, ih (hnext _)]
    | deliver payload =>
      simp only [Ids.input, List.filterMap_cons, topicSample]
      cases hvalue : setpoint announcedIds payload with
      | none => exact ih hs
      | some sample =>
        have wf : announcedIds.pongDatawriter.Wf := ⟨by decide, by decide⟩
        have hsample := sampleFor_sample hs wf
          (Nat.le_trans (length_setpoint hvalue) (by decide)) writer
        simp only [Option.map_some, Option.toList_some, List.singleton_append, messages_cons,
          List.filterMap_cons, hsample, Option.bind_some, ih (hnext _)]

/-! ## Runs of the firmware -/

/-- The value that an op of the loop publishes. -/
def publishedValue : Op → Option Int32
  | .publish i => some i
  | _ => none

/-- The value that an input asks to echo. -/
def echoedSample : Input → Option Bytes
  | .deliver payload => setpoint announcedIds payload
  | _ => none

/-- A poll delivers a payload or nothing. -/
theorem hear_poll (secureLink : Bool) (ears : Ears) (c : Option UInt8) :
    (ears.hear secureLink (.poll c)).2 = none ∨
      ∃ payload, (ears.hear secureLink (.poll c)).2 = some (.deliver payload) := by
  cases c with
  | none => exact Or.inl rfl
  | some c =>
    simp only [Ears.hear]
    rcases ears.reader.feed c with ⟨reader, res⟩
    cases res with
    | inProgress | error => exact Or.inl rfl
    | frameReady src len =>
      cases secureLink with
      | false => exact Or.inr ⟨_, rfl⟩
      | true =>
        rcases hunwrap : ears.downlink.unwrap (reader.payloadBuf.take len.toNat) with ⟨_, sres⟩
        cases sres with
        | ok plain => exact Or.inr ⟨plain, by simp [hunwrap]⟩
        | tooShort | badTag | replayed => exact Or.inl (by simp [hunwrap])

theorem topicSample_chatter_deliver (payload : Bytes) :
    topicSample announcedIds.datawriter (.deliver payload) = none := by
  have hother : announcedIds.pongDatawriter ≠ announcedIds.datawriter := by decide
  simp [topicSample, hother]

theorem topicSample_pong (i : Input) :
    topicSample announcedIds.pongDatawriter i = echoedSample i := by
  have hother : announcedIds.datawriter ≠ announcedIds.pongDatawriter := by decide
  cases i with
  | announce k => rfl
  | publish i => simp [topicSample, echoedSample, hother]
  | deliver payload => simp [topicSample, echoedSample]

theorem topicSample_chatter (secureLink : Bool) (ops : List Op) (ears : Ears) :
    (ears.inputs secureLink ops).filterMap (topicSample announcedIds.datawriter) =
      (ops.filterMap publishedValue).map fun i => littleEndian 4 i.toBitVec := by
  induction ops generalizing ears with
  | nil => rfl
  | cons op ops ih =>
    rw [inputs_cons, List.filterMap_append, ih]
    cases op with
    | announce k => rfl
    | announced => rfl
    | publish i => simp [Ears.hear, topicSample, publishedValue]
    | poll c =>
      have hvalue : publishedValue (.poll c) = none := rfl
      rcases hear_poll secureLink ears c with h | ⟨payload, h⟩ <;>
        simp [h, topicSample_chatter_deliver, hvalue]

/-- The ids change in the steps of `announce_entities` only. -/
theorem ids_step (secureLink : Bool) (nodeId : Nat) (b : Board) (op : Op) :
    (step secureLink nodeId b op).ids =
      match op with
      | .announce k => (announceStep nodeId k).assign b.ids
      | _ => b.ids := by
  obtain ⟨-, hfollows⟩ := follows_step secureLink nodeId b op
  cases op with
  | announce k => exact hfollows.1
  | announced => exact hfollows.1
  | publish i => exact hfollows.1
  | poll c =>
    rcases hear_poll secureLink b.ears c with h | ⟨payload, h⟩
    · rw [h] at hfollows
      exact hfollows.1
    · rw [h] at hfollows
      exact hfollows.1

theorem ids_polls (secureLink : Bool) (nodeId : Nat) (received : List (Option UInt8)) (b : Board) :
    (run secureLink nodeId b (received.map .poll)).ids = b.ids := by
  induction received generalizing b with
  | nil => rfl
  | cons c received ih => exact (ih _).trans (ids_step secureLink nodeId b (.poll c))

theorem ids_announces (secureLink : Bool) (nodeId : Nat) (rx : Fin 11 → List (Option UInt8))
    (ks : List (Fin 11)) (b : Board) :
    (run secureLink nodeId b (ks.flatMap fun k => .announce k :: (rx k).map .poll)).ids =
      ks.foldl (fun ids k => (announceStep nodeId k).assign ids) b.ids := by
  induction ks generalizing b with
  | nil => rfl
  | cons k ks ih =>
    have hfirst : (run secureLink nodeId b (.announce k :: (rx k).map .poll)).ids =
        (announceStep nodeId k).assign b.ids :=
      (ids_polls secureLink nodeId (rx k) _).trans (ids_step secureLink nodeId b (.announce k))
    rw [List.flatMap_cons, run_append, ih, hfirst, List.foldl_cons]

/-- The announcement leaves the node with its ids, whatever the polls in between receive. -/
theorem ids_announceEntities (secureLink : Bool) (nodeId : Nat) (b : Board) (rx : Received)
    (n : Nat) : (run secureLink nodeId b (announceEntities rx n)).ids = announcedIds :=
  (ids_announces secureLink nodeId (fun k => rx (n + k)) (List.finRange 11) b).trans rfl

theorem published_polls (received : List (Option UInt8)) :
    (received.map Op.poll).filterMap publishedValue = [] := by
  rw [List.filterMap_map]
  exact List.filterMap_eq_nil_iff.mpr fun _ _ => rfl

theorem published_announceEntities (rx : Received) (n : Nat) :
    (announceEntities rx n).filterMap publishedValue = [] := by
  rw [List.filterMap_eq_nil_iff]
  intro op hop
  obtain ⟨k, -, hop⟩ := List.mem_flatMap.mp hop
  rcases List.mem_cons.mp hop with rfl | hop
  · rfl
  · obtain ⟨c, -, rfl⟩ := List.mem_map.mp hop
    rfl

theorem published_turns (rx : Received) (count : Nat) (i : Int32) (n : Nat) :
    (turns rx count i n).filterMap publishedValue =
      (List.range count).map fun k => i + Int32.ofNat k := by
  induction count generalizing i n with
  | zero => rfl
  | succ count ih =>
    have hrest (n : Nat) : i :: (turns rx count (i + 1) n).filterMap publishedValue =
        (List.range (count + 1)).map fun k => i + Int32.ofNat k := by
      rw [ih, List.range_succ_eq_map, List.map_cons, List.map_map]
      have hsucc (k : Nat) : i + 1 + Int32.ofNat k = i + Int32.ofNat (k + 1) := by
        rw [Int32.ofNat_add, Int32.add_assoc, Int32.add_comm 1]
        rfl
      simp [hsucc, Function.comp_def]
    have hturn (n m : Nat) : ((Op.publish i :: (rx n).map .poll) ++
        turns rx count (i + 1) m).filterMap publishedValue =
          i :: (turns rx count (i + 1) m).filterMap publishedValue := by
      rw [List.filterMap_append, List.filterMap_cons, published_polls]
      rfl
    rw [turns]
    split
    · rw [List.append_assoc, List.filterMap_append, published_announceEntities, hturn, hrest]
      rfl
    · rw [hturn, hrest]

theorem sessionId_step (secureLink : Bool) (nodeId : Nat) (b : Board) (op : Op) :
    (step secureLink nodeId b op).session.sessionId = b.session.sessionId := by
  have htold {b' : Board} {c? : Option Call} (h : Tells secureLink b b' c?) :
      b'.session.sessionId = b.session.sessionId := by
    cases h with
    | silent _ session => rw [session]
    | call _ _ session => rw [session, sessionId_call]
  obtain ⟨-, hfollows⟩ := follows_step secureLink nodeId b op
  cases hinput : (b.ears.hear secureLink op).2 with
  | none => exact htold (hinput ▸ hfollows).2
  | some i => exact htold (hinput ▸ hfollows).2

theorem sessionId_run (secureLink : Bool) (nodeId : Nat) (ops : List Op) (b : Board) :
    (run secureLink nodeId b ops).session.sessionId = b.session.sessionId := by
  induction ops generalizing b with
  | nil => rfl
  | cons op ops ih => exact (ih _).trans (sessionId_step secureLink nodeId b op)

/-- In every run of `main`, whatever its polls receive, the agent gets the messages of the first
announcement and then messages of which those for `rt/chatter` carry 0, 1, 2 and so on, one for each
turn of the loop, and those for `rt/pong` the samples that came in for `rt/setpoint`. -/
theorem topics_carry (secureLink : Bool) (nodeId : Nat) (key : Bytes) (rx : Received)
    (count : Nat) {buf : Bytes} (room : payloadBufLen ≤ buf.length) :
    let start := boot secureLink nodeId key
    let announced := run secureLink nodeId start (announceEntities rx 0)
    let inputs := announced.ears.inputs secureLink (.announced :: turns rx count 0 11)
    let first := start.sends nodeId (start.ears.inputs secureLink (announceEntities rx 0))
    let sent := announced.sends nodeId inputs
    ((secureLink = true → (first ++ sent).length ≤ 2 ^ 32) →
      opened secureLink key (heard buf (run secureLink nodeId start (main rx count)).tx) =
        (first ++ sent).map .ok) ∧
    sent.filterMap (sampleFor announcedIds.datawriter) =
      (List.range count).map (fun k => littleEndian 4 (Int32.ofNat k).toBitVec) ∧
    sent.filterMap (sampleFor announcedIds.pongDatawriter) = inputs.filterMap echoedSample := by
  intro start announced inputs first sent
  have hids : announced.ids = announcedIds := ids_announceEntities secureLink nodeId start rx 0
  have hsession : announced.session.sessionId < 0x80 := by
    rw [sessionId_run]
    cases secureLink <;> exact show (0x01 : UInt8) < 0x80 by decide
  have hsamples (writer : ObjectId) :
      sent.filterMap (sampleFor writer) = inputs.filterMap (topicSample writer) := by
    simp only [sent, Board.sends, hids]
    exact filterMap_messages nodeId writer inputs hsession
  refine ⟨fun few => ?_, ?_, ?_⟩
  · have hsent : start.sends nodeId (start.ears.inputs secureLink (main rx count)) =
        first ++ sent := sends_append secureLink nodeId _ _ start
    rw [← hsent] at few ⊢
    exact line_carries secureLink nodeId key (main rx count) room few
  · have hvalue (k : Nat) : (0 : Int32) + Int32.ofNat k = Int32.ofNat k := Int32.zero_add _
    have hloop : (Op.announced :: turns rx count 0 11).filterMap publishedValue =
        (List.range count).map fun k => 0 + Int32.ofNat k := published_turns rx count 0 11
    rw [hsamples, topicSample_chatter, hloop, List.map_map]
    simp only [Function.comp_def, hvalue]
  · rw [hsamples]
    exact List.filterMap_congr fun i _ => topicSample_pong i

/-- Two turns on a secured link on which nothing comes in. -/
theorem topics_carry_sample :
    let start := boot true 0 [7]
    let announced := run true 0 start (announceEntities (fun _ => []) 0)
    let inputs := announced.ears.inputs true (.announced :: turns (fun _ => []) 2 0 11)
    let sent := announced.sends 0 inputs
    opened true [7]
        (heard (.replicate payloadBufLen 0) (run true 0 start (main (fun _ => []) 2)).tx) =
      (start.sends 0 (start.ears.inputs true (announceEntities (fun _ => []) 0)) ++ sent).map .ok ∧
    sent.filterMap (sampleFor announcedIds.datawriter) = [[0, 0, 0, 0], [1, 0, 0, 0]] ∧
    sent.filterMap (sampleFor announcedIds.pongDatawriter) = [] := by
  have room : payloadBufLen ≤ (List.replicate payloadBufLen (0 : UInt8)).length :=
    Nat.le_of_eq List.length_replicate.symm
  obtain ⟨hopened, hchatter, hpong⟩ := topics_carry true 0 [7] (fun _ => []) 2 room
  exact ⟨hopened fun _ => by decide, hchatter, hpong⟩

end RtosXrce.Arm.Ros2Demo
