import RtosXrce.Xrce.ReliableWindows
import RtosXrce.Xrce.Samples
import RtosXrce.Xrce.SessionControl
import RtosXrce.Xrce.SessionRuns

/-!
# The reliable half of the benchmark

`host/bench_qos.c`, from where the reliable session is set up. The program publishes its samples,
keeps each message for retransmission, and goes through rounds of a HEARTBEAT, the ACKNACKs that
come back, and what is sent again. The link between it and the agent loses, repeats and reorders
datagrams: what was sent may arrive at any later time, any number of times, or never. Of the agent
only this is taken for granted: the `first_unacked` of its ACKNACKs counts messages that have
arrived.
-/

namespace RtosXrce.Host

open Library Xrce Xrce.Cdr Xrce.Msgs Xrce.Session

namespace BenchQos

/-! ## The program -/

/-- `reliable_stream_raw`, which is `xrce_reliable_stream_raw_id(0)`. -/
abbrev reliableStreamRaw : UInt8 := 0x80

/-- `rel_start_seq`. -/
abbrev relStartSeq : UInt16 := 0

/-- `max_rounds`. -/
abbrev maxRounds : Nat := 12

/-- `build_sample`. -/
def buildSample (value : Int32) : Bytes :=
  headerless (({ data := value } : StdMsgsInt32).encode (fun _ => 0) 16)

/-- Where the program stands. -/
inductive Pc where
  /-- In front of turn `i` of the loop that publishes. -/
  | publishing (i : Nat)
  /-- In front of a round. -/
  | round (rounds : Nat)
  /-- In the loop that waits for ACKNACKs. -/
  | listening (rounds : Nat) (gotAcknack : Bool)
  /-- In the loop that retransmits. -/
  | resending (rounds : Nat)
  /-- Behind the rounds, left by the `break` or not. -/
  | finished (acked : Bool)
  deriving DecidableEq

end BenchQos

open BenchQos

/-- The reliable session and its stream; `sent` is every datagram handed to `sendto`. -/
structure BenchQos where
  session : Session
  ro : ReliableOut
  pc : Pc
  sent : List Bytes

namespace BenchQos

/-- The state in front of the loop that publishes, with the session that was set up. -/
def start (session : Session) : BenchQos where
  session := { session with outSeqNum := relStartSeq }
  ro := { ReliableOut.init with lastAcknown := relStartSeq - 1 }
  pc := .publishing 0
  sent := []

section Program

variable (writer : ObjectId) (count : Nat) (b : BenchQos)

/-- A turn of the loop that publishes. -/
def publish (i : Nat) : BenchQos :=
  let seq := b.session.outSeqNum
  let msg := buildWriteData reliableStreamRaw writer (buildSample (Int32.ofNat i)) b.session
    (fun _ => 0) 128
  { b with
    session := msg.session
    ro := (b.ro.track seq (built msg)).2
    sent := b.sent ++ [built msg] }

/-- The HEARTBEAT of a round. -/
def heartbeat : BenchQos :=
  let hb := buildHeartbeat reliableStreamRaw reliableStreamRaw (b.ro.lastAcknown + 1) b.ro.lastSent
    b.session (fun _ => 0) 32
  { b with session := hb.session, sent := b.sent ++ [built hb] }

/-- What the program does next, unless it waits for the network. -/
def advance : Option BenchQos :=
  match b.pc with
  | .publishing i =>
    if i < count then some { b.publish writer i with pc := .publishing (i + 1) }
    else some { b with pc := .round 0 }
  | .round rounds =>
    if rounds < maxRounds then some { b.heartbeat with pc := .listening rounds false }
    else some { b with pc := .finished false }
  | .listening .. => none
  | .resending rounds =>
    match b.ro.nextRetransmit with
    | (ro, some (msg, len)) => some { b with ro, sent := b.sent ++ [msg.take len] }
    | (ro, none) =>
      if ro.lastAcknown = relStartSeq + UInt16.ofNat count - 1 then
        some { b with ro, pc := .finished true }
      else some { b with ro, pc := .round (rounds + 1) }
  | .finished _ => none

/-- The loop that waits gets a datagram. -/
def hear (datagram : Bytes) : Option BenchQos :=
  match b.pc with
  | .listening rounds _ =>
    match parseAcknack (fun i => datagram.getD i 0) datagram.length with
    | some a =>
      some { b with ro := b.ro.onAcknack a.firstUnacked a.bitmap, pc := .listening rounds true }
    | none => some b
  | _ => none

/-- The 150 milliseconds are over. -/
def timeUp : Option BenchQos :=
  match b.pc with
  | .listening rounds true => some { b with pc := .resending rounds }
  | .listening rounds false => some { b with pc := .round (rounds + 1) }
  | _ => none

end Program

/-! ## The link and the agent -/

/-- The number of a message on the reliable stream. -/
def numberOf (m : Bytes) : Option UInt16 :=
  if m.getD 1 0 = reliableStreamRaw then some (gatherU16 #v[m.getD 2 0, m.getD 3 0]) else none

/-- The program, what has arrived at the agent, and the ACKNACKs that the agent has sent. -/
structure Net where
  bench : BenchQos
  arrived : List Bytes
  acknacks : List (UInt16 × UInt16)

/-- Message `k` has arrived. -/
def Has (arrived : List Bytes) (k : Nat) : Prop :=
  ∃ m ∈ arrived, numberOf m = some (UInt16.ofNat k)

instance (arrived : List Bytes) (k : Nat) : Decidable (Has arrived k) :=
  inferInstanceAs (Decidable (∃ m ∈ arrived, _))

inductive Action where
  | advance
  | hear (datagram : Bytes)
  | timeUp
  /-- A datagram arrives at the agent. -/
  | arrive (datagram : Bytes)
  /-- The agent sends an ACKNACK for the first `n` messages. -/
  | acknowledge (n : Nat) (bitmap : UInt16)

/-- A datagram that holds no ACKNACK, or one that the agent has sent. -/
def FromAgent (acknacks : List (UInt16 × UInt16)) (datagram : Bytes) : Prop :=
  (parseAcknack (fun i => datagram.getD i 0) datagram.length).all fun a =>
    (a.firstUnacked, a.bitmap) ∈ acknacks

instance (acknacks : List (UInt16 × UInt16)) (datagram : Bytes) :
    Decidable (FromAgent acknacks datagram) := inferInstanceAs (Decidable (_ = true))

/-- The program over the link. -/
def net (writer : ObjectId) (count : Nat) : System Net Action where
  step n
    | .advance => (n.bench.advance writer count).map fun bench => { n with bench }
    | .hear datagram =>
      if FromAgent n.acknacks datagram then
        (n.bench.hear datagram).map fun bench => { n with bench }
      else none
    | .timeUp => n.bench.timeUp.map fun bench => { n with bench }
    | .arrive datagram =>
      if datagram ∈ n.bench.sent then some { n with arrived := datagram :: n.arrived } else none
    | .acknowledge k bitmap =>
      if ∀ j < k, Has n.arrived j then
        some { n with acknacks := (UInt16.ofNat k, bitmap) :: n.acknacks }
      else none

def Net.start (session : Session) : Net := ⟨BenchQos.start session, [], []⟩

/-! ## The messages -/

section Messages

variable (session : Session) (writer : ObjectId)

/-- The session behind the first `k` turns of the loop that publishes. -/
def sessionAt (k : Nat) : Session :=
  { session with
    outSeqNum := UInt16.ofNat k
    nextRequestId := session.nextRequestId + UInt16.ofNat k }

/-- Message `k`. -/
def datagram (k : Nat) : Bytes :=
  message (sessionAt session k) submsgWriteData reliableStreamRaw writer
    (littleEndian 4 (Int32.ofNat k).toBitVec)

theorem buildSample_eq (value : Int32) : buildSample value = littleEndian 4 value.toBitVec :=
  (encode_int32 value).2

theorem length_datagram (k : Nat) : (datagram session writer k).length = 20 := by
  rw [datagram, length_message, length_littleEndian]

theorem built_datagram (k : Nat) :
    built (buildWriteData reliableStreamRaw writer (buildSample (Int32.ofNat k))
      (sessionAt session k) (fun _ => 0) 128) = datagram session writer k := by
  rw [buildSample_eq, built_writeData]
  · rfl
  · rw [length_littleEndian]
    decide

theorem session_datagram (k : Nat) :
    (buildWriteData reliableStreamRaw writer (buildSample (Int32.ofNat k)) (sessionAt session k)
      (fun _ => 0) 128).session = sessionAt session (k + 1) := by
  have hfits : Request.Fits (.writeData writer (buildSample (Int32.ofNat k))) 128 := by
    refine ⟨trivial, ?_⟩
    rw [buildSample_eq]
    exact show 16 + (littleEndian 4 _).length ≤ 128 by rw [length_littleEndian]; decide
  obtain ⟨body, hbody, hsize⟩ := Request.spans_format hfits.1
  have room : 16 + body.length ≤ 128 := hsize ▸ hfits.2
  have hbuild := Request.build_fits (.writeData writer (buildSample (Int32.ofNat k)))
    reliableStreamRaw (sessionAt session k) (fun _ => 0) hbody room
  have hnext : (sessionAt session k).next = sessionAt session (k + 1) := by
    simp only [Session.next, sessionAt, UInt16.ofNat_add, UInt16.add_assoc]
    rfl
  exact (congrArg Built.session hbuild).trans hnext

theorem numberOf_datagram (k : Nat) :
    numberOf (datagram session writer k) = some (UInt16.ofNat k) := by
  have hnumber := (getD_message (sessionAt session k) submsgWriteData reliableStreamRaw writer
    (littleEndian 4 (Int32.ofNat k).toBitVec)).1
  have hstream : (datagram session writer k).getD 1 0 = reliableStreamRaw := rfl
  rw [numberOf, if_pos hstream, datagram, hnumber]
  exact congrArg some (UInt16.toBitVec_inj.mp (gatherU16_wordBuf (UInt16.ofNat k).toBitVec))

/-- The agent finds the sample in the message. -/
theorem sampleFor_datagram (hs : session.sessionId < 0x80) (wf : writer.Wf) (k : Nat) :
    sampleFor writer (datagram session writer k) =
      some (littleEndian 4 (Int32.ofNat k).toBitVec) := by
  have hid : (sessionAt session k).sessionId < 0x80 := hs
  rw [datagram, sampleFor_writeData reliableStreamRaw _ hid wf writer, if_pos rfl]

/-- A HEARTBEAT is no message of the stream. -/
theorem numberOf_heartbeat (k : Nat) (firstUnacked lastSent : UInt16) :
    numberOf (built (buildHeartbeat reliableStreamRaw reliableStreamRaw firstUnacked lastSent
      (sessionAt session k) (fun _ => 0) 32)) = none := by
  rw [buildHeartbeat_fits _ _ _ _ _ _ (by decide)]
  exact if_neg (show ¬ (0 : UInt8) = reliableStreamRaw by decide)

theorem session_heartbeat (s : Session) (firstUnacked lastSent : UInt16) :
    (buildHeartbeat reliableStreamRaw reliableStreamRaw firstUnacked lastSent s (fun _ => 0)
      32).session = s := session_buildControl _ _ _ s _ _

end Messages

/-! ## What arrives -/

/-- The turns of the loop that publishes are over, or some of them. -/
def Pc.published (count : Nat) : Pc → Nat
  | .publishing i => i
  | _ => count

/-- Every message in flight, stored or arrived is one of those published, unchanged. -/
structure Delivers (session : Session) (writer : ObjectId) (count : Nat) (n : Net) : Prop where
  session_eq : n.bench.session = sessionAt session (n.bench.pc.published count)
  published_le : n.bench.pc.published count ≤ count
  sent : ∀ m ∈ n.bench.sent, ∀ q, numberOf m = some q →
    ∃ k < n.bench.pc.published count, m = datagram session writer k
  stored : ∀ c, n.bench.ro.occupied c = true →
    ∃ k < n.bench.pc.published count,
      (n.bench.ro.buf c).take (n.bench.ro.len c) = datagram session writer k
  arrived : ∀ m ∈ n.arrived, m ∈ n.bench.sent
  acknacks : ∀ a ∈ n.acknacks, ∃ k ≤ count, a.1 = UInt16.ofNat k ∧ ∀ j < k, Has n.arrived j
  acknown : ∃ k ≤ count, n.bench.ro.lastAcknown = UInt16.ofNat k - 1 ∧ ∀ j < k, Has n.arrived j
  acked : n.bench.pc = .finished true →
    n.bench.ro.lastAcknown = UInt16.ofNat count - 1

theorem ofNat_inj {j k : Nat} (hj : j < 2 ^ 16) (hk : k < 2 ^ 16)
    (h : UInt16.ofNat j = UInt16.ofNat k) : j = k := by
  have hnat := congrArg UInt16.toNat h
  rwa [UInt16.toNat_ofNat_of_lt' hj, UInt16.toNat_ofNat_of_lt' hk] at hnat

section Invariant

variable {session : Session} {writer : ObjectId} {count : Nat} {n : Net}

theorem delivers_start (session : Session) (writer : ObjectId) (count : Nat) :
    Delivers session writer count (.start session) where
  session_eq := by simp [Net.start, start, sessionAt, Pc.published]
  published_le := Nat.zero_le _
  sent m hm := absurd hm List.not_mem_nil
  stored c hc := absurd hc Bool.false_ne_true
  arrived m hm := absurd hm List.not_mem_nil
  acknacks a ha := absurd ha List.not_mem_nil
  acknown := ⟨0, Nat.zero_le _, rfl, fun j hj => absurd hj (Nat.not_lt_zero j)⟩
  acked h := by cases h

/-- What has arrived under a number is the message of that number. -/
theorem Delivers.arrived_eq (h : Delivers session writer count n) (few : count < 2 ^ 16) {k : Nat}
    (hk : k < 2 ^ 16) {m : Bytes} (hm : m ∈ n.arrived)
    (hnumber : numberOf m = some (UInt16.ofNat k)) : k < count ∧ m = datagram session writer k := by
  obtain ⟨j, hj, rfl⟩ := h.sent m (h.arrived m hm) _ hnumber
  rw [numberOf_datagram] at hnumber
  have hle := h.published_le
  obtain rfl := ofNat_inj (by omega) hk (Option.some.inj hnumber)
  exact ⟨by omega, rfl⟩

/-- The agent cannot have more than was published. -/
theorem Delivers.le_of_has (h : Delivers session writer count n) (few : count < 2 ^ 16) {k : Nat}
    (hall : ∀ j < k, Has n.arrived j) : k ≤ count := by
  by_contra hlt
  obtain ⟨m, hm, hnumber⟩ := hall count (by omega)
  exact absurd (h.arrived_eq few few hm hnumber).1 (Nat.lt_irrefl count)

theorem Has.cons {arrived : List Bytes} {k : Nat} (h : Has arrived k) (m : Bytes) :
    Has (m :: arrived) k := by
  obtain ⟨m', hm', hnumber⟩ := h
  exact ⟨m', List.mem_cons_of_mem m hm', hnumber⟩

theorem stored_track (ro : ReliableOut) (seq : UInt16) (msg : Bytes) {P : Bytes → Prop}
    (hmsg : P msg) (hstored : ∀ c, ro.occupied c = true → P ((ro.buf c).take (ro.len c))) :
    ∀ c, (ro.track seq msg).2.occupied c = true →
      P (((ro.track seq msg).2.buf c).take ((ro.track seq msg).2.len c)) := by
  rcases Sender.track_cases ro seq msg with ⟨-, h⟩ | ⟨-, -, h⟩
  · rwa [h]
  · rw [h]
    intro c hc
    by_cases hslot : c = slotFor seq
    · subst hslot
      simpa [take_memcpy] using hmsg
    · simp only [Function.update_of_ne hslot] at hc ⊢
      exact hstored c hc

theorem stored_onAcknack (ro : ReliableOut) (firstUnacked bitmap : UInt16) {P : Bytes → Prop}
    (hstored : ∀ c, ro.occupied c = true → P ((ro.buf c).take (ro.len c))) :
    ∀ c, (ro.onAcknack firstUnacked bitmap).occupied c = true →
      P (((ro.onAcknack firstUnacked bitmap).buf c).take
        ((ro.onAcknack firstUnacked bitmap).len c)) := by
  intro c hc
  unfold ReliableOut.onAcknack at hc ⊢
  split
  case isTrue hany =>
    simp only [hany, if_true] at hc ⊢
    exact hstored c ((ReliableOut.freeUpTo_iff _ _ _ _).mp hc).1
  case isFalse hany =>
    simp only [hany, Bool.false_eq_true, if_false] at hc ⊢
    exact hstored c hc

theorem lastAcknown_onAcknack (ro : ReliableOut) (firstUnacked bitmap : UInt16) :
    (ro.onAcknack firstUnacked bitmap).lastAcknown = firstUnacked - 1 ∨
      (ro.onAcknack firstUnacked bitmap).lastAcknown = ro.lastAcknown := by
  unfold ReliableOut.onAcknack
  split
  · exact Or.inl rfl
  · exact Or.inr rfl

/-- What is sent again is what a slot holds. -/
theorem sweep_stored (ro : ReliableOut) {msg : Bytes} {len : Nat}
    (h : ro.sweep.2 = some (msg, len)) :
    ∃ c, ro.occupied c = true ∧ msg = ro.buf c ∧ len = ro.len c := by
  fun_induction ReliableOut.sweep ro with
  | case1 ro stop => cases h
  | case2 ro walk slot occ =>
    obtain ⟨rfl, rfl⟩ := Prod.mk.inj (Option.some.inj h)
    exact ⟨_, occ, rfl, rfl⟩
  | case3 ro walk slot free ih => exact ih h

theorem nextRetransmit_stored {ro : ReliableOut} {msg : Bytes} {len : Nat}
    (h : ro.nextRetransmit.2 = some (msg, len)) :
    ∃ c, ro.occupied c = true ∧ msg = ro.buf c ∧ len = ro.len c := by
  unfold ReliableOut.nextRetransmit at h
  split at h
  · exact sweep_stored ro h
  · cases h

/-- A move of the program that publishes nothing and hears nothing. -/
theorem Delivers.moves (h : Delivers session writer count n) {b : BenchQos} {more : List Bytes}
    (hsession : b.session = n.bench.session)
    (hpc : b.pc.published count = n.bench.pc.published count)
    (hsent : b.sent = n.bench.sent ++ more)
    (hmore : ∀ m ∈ more, ∀ q, numberOf m = some q →
      ∃ k < n.bench.pc.published count, m = datagram session writer k)
    (hbuf : b.ro.buf = n.bench.ro.buf) (hlen : b.ro.len = n.bench.ro.len)
    (hoccupied : b.ro.occupied = n.bench.ro.occupied)
    (hacknown : b.ro.lastAcknown = n.bench.ro.lastAcknown)
    (hacked : b.pc = .finished true → b.ro.lastAcknown = UInt16.ofNat count - 1) :
    Delivers session writer count { n with bench := b } where
  session_eq := by rw [hsession, hpc, h.session_eq]
  published_le := hpc ▸ h.published_le
  sent m hm q hq := by
    rw [hpc]
    rw [hsent, List.mem_append] at hm
    exact hm.elim (fun hm => h.sent m hm q hq) fun hm => hmore m hm q hq
  stored := by
    simp only [hbuf, hlen, hoccupied, hpc]
    exact h.stored
  arrived m hm := hsent ▸ List.mem_append_left more (h.arrived m hm)
  acknacks := h.acknacks
  acknown := hacknown ▸ h.acknown
  acked := hacked

theorem Delivers.publish (h : Delivers session writer count n) {i : Nat} (hi : i < count)
    (hpc : n.bench.pc = .publishing i) :
    Delivers session writer count
      { n with bench := { n.bench.publish writer i with pc := .publishing (i + 1) } } := by
  have hpublished : n.bench.pc.published count = i := by rw [hpc, Pc.published]
  have hsession : n.bench.session = sessionAt session i := by rw [h.session_eq, hpublished]
  have hbuilt := built_datagram session writer i
  have hnext := session_datagram session writer i
  have earlier {m : Bytes} (hm : ∃ k < n.bench.pc.published count, m = datagram session writer k) :
      ∃ k < i + 1, m = datagram session writer k := by
    obtain ⟨k, hk, rfl⟩ := hm
    exact ⟨k, by omega, rfl⟩
  have hstored := stored_track n.bench.ro n.bench.session.outSeqNum (datagram session writer i)
    (P := fun m => ∃ k < i + 1, m = datagram session writer k) ⟨i, Nat.lt_succ_self i, rfl⟩
    fun c hc => earlier (h.stored c hc)
  have hacknown : (n.bench.ro.track n.bench.session.outSeqNum
      (datagram session writer i)).2.lastAcknown = n.bench.ro.lastAcknown := by
    rcases Sender.track_cases n.bench.ro n.bench.session.outSeqNum (datagram session writer i) with
      ⟨-, hro⟩ | ⟨-, -, hro⟩ <;> rw [hro]
  simp only [BenchQos.publish, hsession, hbuilt, hnext] at hstored hacknown ⊢
  exact
    { session_eq := rfl
      published_le := hi
      sent := fun m hm q hq => by
        rcases List.mem_append.mp hm with hm | hm
        · exact earlier (h.sent m hm q hq)
        · exact ⟨i, Nat.lt_succ_self i, List.mem_singleton.mp hm⟩
      stored := hstored
      arrived := fun m hm => List.mem_append_left _ (h.arrived m hm)
      acknacks := h.acknacks
      acknown := hacknown ▸ h.acknown
      acked := fun hpc => by cases hpc }

theorem Delivers.heartbeat (h : Delivers session writer count n) {rounds : Nat}
    (hpc : n.bench.pc = .round rounds) :
    Delivers session writer count
      { n with bench := { n.bench.heartbeat with pc := .listening rounds false } } := by
  have hsession := h.session_eq
  have hquiet (firstUnacked lastSent : UInt16) := numberOf_heartbeat session
    (n.bench.pc.published count) firstUnacked lastSent
  rw [← hsession] at hquiet
  refine h.moves (session_heartbeat _ _ _) (by rw [hpc]; rfl) rfl (fun m hm q hq => ?_) rfl rfl rfl
    rfl (fun hfinished => by cases hfinished)
  rw [List.mem_singleton.mp hm, hquiet] at hq
  cases hq

theorem Delivers.resend (h : Delivers session writer count n) {rounds : Nat}
    (hpc : n.bench.pc = .resending rounds) {b : BenchQos}
    (hstep : n.bench.advance writer count = some b) :
    Delivers session writer count { n with bench := b } := by
  obtain ⟨hbuf, hlen, hoccupied, hacknown, -, -⟩ := n.bench.ro.nextRetransmit_frame
  simp only [advance, hpc] at hstep
  split at hstep
  next ro msg len hnext =>
    obtain rfl := Option.some.inj hstep
    simp only [hnext] at hbuf hlen hoccupied hacknown
    obtain ⟨c, hc, rfl, rfl⟩ := nextRetransmit_stored (congrArg Prod.snd hnext)
    refine h.moves rfl (by rw [hpc]) rfl (fun m hm q hq => ?_) hbuf hlen hoccupied hacknown
      (fun hfinished => by cases hfinished)
    rw [List.mem_singleton.mp hm]
    exact h.stored c hc
  next ro hnext =>
    simp only [hnext] at hbuf hlen hoccupied hacknown
    have hnothing : n.bench.sent = n.bench.sent ++ [] := (List.append_nil _).symm
    split at hstep
    case isTrue hall =>
      obtain rfl := Option.some.inj hstep
      refine h.moves rfl (by rw [hpc]; rfl) hnothing (fun m hm => absurd hm List.not_mem_nil) hbuf
        hlen hoccupied hacknown fun _ => ?_
      simpa using hall
    case isFalse =>
      obtain rfl := Option.some.inj hstep
      exact h.moves rfl (by rw [hpc]; rfl) hnothing (fun m hm => absurd hm List.not_mem_nil) hbuf
        hlen hoccupied hacknown fun hfinished => by cases hfinished

theorem Delivers.advance (h : Delivers session writer count n) {b : BenchQos}
    (hstep : n.bench.advance writer count = some b) :
    Delivers session writer count { n with bench := b } := by
  have hnothing : n.bench.sent = n.bench.sent ++ [] := (List.append_nil _).symm
  cases hpc : n.bench.pc with
  | publishing i =>
    simp only [BenchQos.advance, hpc] at hstep
    split at hstep
    case isTrue hi =>
      obtain rfl := Option.some.inj hstep
      exact h.publish hi hpc
    case isFalse hi =>
      obtain rfl := Option.some.inj hstep
      have hle := h.published_le
      rw [hpc] at hle
      have hcount : count = i := Nat.le_antisymm (Nat.not_lt.mp hi) hle
      exact h.moves rfl (by rw [hpc]; exact hcount) hnothing
        (fun m hm => absurd hm List.not_mem_nil) rfl rfl rfl rfl fun hfinished => by cases hfinished
  | round rounds =>
    simp only [BenchQos.advance, hpc] at hstep
    split at hstep
    case isTrue =>
      obtain rfl := Option.some.inj hstep
      exact h.heartbeat hpc
    case isFalse =>
      obtain rfl := Option.some.inj hstep
      exact h.moves rfl (by rw [hpc]; rfl) hnothing (fun m hm => absurd hm List.not_mem_nil) rfl rfl
        rfl rfl fun hfinished => by cases hfinished
  | resending rounds => exact h.resend hpc hstep
  | listening rounds got | finished acked =>
    rw [BenchQos.advance, hpc] at hstep
    cases hstep

theorem Delivers.hear (h : Delivers session writer count n) {m : Bytes}
    (hfrom : FromAgent n.acknacks m) {b : BenchQos} (hstep : n.bench.hear m = some b) :
    Delivers session writer count { n with bench := b } := by
  cases hpc : n.bench.pc with
  | listening rounds got =>
    simp only [BenchQos.hear, hpc] at hstep
    cases hparse : parseAcknack (fun i => m.getD i 0) m.length with
    | none =>
      simp only [hparse] at hstep
      obtain rfl := Option.some.inj hstep
      exact h
    | some a =>
      simp only [hparse] at hstep
      obtain rfl := Option.some.inj hstep
      rw [FromAgent, hparse, Option.all_some, decide_eq_true_eq] at hfrom
      have hpublished : n.bench.pc.published count = count := by rw [hpc]; rfl
      have hstored := stored_onAcknack n.bench.ro a.firstUnacked a.bitmap
        (P := fun m => ∃ k < count, m = datagram session writer k)
        fun c hc => hpublished ▸ h.stored c hc
      exact
        { session_eq := hpublished ▸ h.session_eq
          published_le := Nat.le_refl count
          sent := fun m hm q hq => hpublished ▸ h.sent m hm q hq
          stored := hstored
          arrived := h.arrived
          acknacks := h.acknacks
          acknown := by
            rcases lastAcknown_onAcknack n.bench.ro a.firstUnacked a.bitmap with hlast | hlast
            · obtain ⟨k, hk, hfirst, hall⟩ := h.acknacks _ hfrom
              exact ⟨k, hk, hlast.trans (congrArg (· - 1) hfirst), hall⟩
            · exact hlast ▸ h.acknown
          acked := fun hfinished => by cases hfinished }
  | publishing i | round rounds | resending rounds | finished acked =>
    rw [BenchQos.hear, hpc] at hstep
    cases hstep

theorem Delivers.timeUp (h : Delivers session writer count n) {b : BenchQos}
    (hstep : n.bench.timeUp = some b) : Delivers session writer count { n with bench := b } := by
  have hnothing : n.bench.sent = n.bench.sent ++ [] := (List.append_nil _).symm
  cases hpc : n.bench.pc with
  | listening rounds got =>
    cases got with
    | true | false =>
      rw [BenchQos.timeUp, hpc] at hstep
      obtain rfl := Option.some.inj hstep
      exact h.moves rfl (by rw [hpc]; rfl) hnothing (fun m hm => absurd hm List.not_mem_nil) rfl rfl
        rfl rfl fun hfinished => by cases hfinished
  | publishing i | round rounds | resending rounds | finished acked =>
    rw [BenchQos.timeUp, hpc] at hstep
    cases hstep

theorem Delivers.step (h : Delivers session writer count n) (few : count < 2 ^ 16) {n' : Net}
    {a : Action} (hstep : (net writer count).step n a = some n') :
    Delivers session writer count n' := by
  cases a with
  | advance =>
    obtain ⟨b, hb, rfl⟩ := Option.map_eq_some_iff.mp hstep
    exact h.advance hb
  | hear m =>
    simp only [net] at hstep
    split at hstep
    case isTrue hfrom =>
      obtain ⟨b, hb, rfl⟩ := Option.map_eq_some_iff.mp hstep
      exact h.hear hfrom hb
    case isFalse => cases hstep
  | timeUp =>
    obtain ⟨b, hb, rfl⟩ := Option.map_eq_some_iff.mp hstep
    exact h.timeUp hb
  | arrive m =>
    simp only [net] at hstep
    split at hstep
    case isTrue hm =>
      obtain rfl := Option.some.inj hstep
      refine { h with arrived := ?_, acknacks := ?_, acknown := ?_ }
      · intro m' hm'
        exact (List.mem_cons.mp hm').elim (fun heq => heq ▸ hm) (h.arrived m')
      · intro a ha
        obtain ⟨k, hk, hfirst, hall⟩ := h.acknacks a ha
        exact ⟨k, hk, hfirst, fun j hj => (hall j hj).cons m⟩
      · obtain ⟨k, hk, hlast, hall⟩ := h.acknown
        exact ⟨k, hk, hlast, fun j hj => (hall j hj).cons m⟩
    case isFalse => cases hstep
  | acknowledge k bitmap =>
    simp only [net] at hstep
    split at hstep
    case isTrue hall =>
      obtain rfl := Option.some.inj hstep
      refine { h with acknacks := ?_ }
      intro a ha
      rcases List.mem_cons.mp ha with rfl | ha
      · exact ⟨k, h.le_of_has few hall, rfl, hall⟩
      · exact h.acknacks a ha
    case isFalse => cases hstep

theorem delivers_of_reachable (few : count < 2 ^ 16)
    (reach : (net writer count).Reachable (.start session) n) : Delivers session writer count n :=
  reach.invariant (delivers_start session writer count) fun _ _ _ h _ hstep => h.step few hstep

/-- Whatever the link does, the agent gets every message unchanged: under each number only the
sample that was published under it. When the program leaves its rounds by the `break`, it has all of
them. -/
theorem reliable_delivery (hs : session.sessionId < 0x80) (wf : writer.Wf) (few : count < 2 ^ 16)
    (reach : (net writer count).Reachable (.start session) n) :
    (∀ m ∈ n.arrived, ∀ k < 2 ^ 16, numberOf m = some (UInt16.ofNat k) →
      k < count ∧ sampleFor writer m = some (littleEndian 4 (Int32.ofNat k).toBitVec)) ∧
    (n.bench.pc = .finished true → ∀ k < count, Has n.arrived k) := by
  have h := delivers_of_reachable few reach
  refine ⟨fun m hm k hk hnumber => ?_, fun hfinished k hk => ?_⟩
  · obtain ⟨hcount, rfl⟩ := h.arrived_eq few hk hm hnumber
    exact ⟨hcount, sampleFor_datagram session writer hs wf k⟩
  · obtain ⟨j, hj, hlast, hall⟩ := h.acknown
    have hsame : UInt16.ofNat j = UInt16.ofNat count := by
      have hminus := hlast.symm.trans (h.acked hfinished)
      rw [← UInt16.sub_add_cancel (UInt16.ofNat j) 1, hminus, UInt16.sub_add_cancel]
    obtain rfl := ofNat_inj (by omega) few hsame
    exact hall k hk

end Invariant

/-- Two samples, the first of them lost. The agent misses it, both are sent again, and in the second
round the agent has it and says so. -/
theorem reliable_delivery_resent : ∃ n, (net ⟨0x001, 0x05⟩ 2).Reachable
    (.start (.init 0x01 #v[0xB1, 0xB1, 0xB1, 0xB1] 512)) n ∧ n.bench.pc = .finished true ∧
      n.bench.ro.retransmitCount = 2 ∧ n.bench.sent.length = 6 ∧ ∀ k < 2, Has n.arrived k := by
  let session : Session := .init 0x01 #v[0xB1, 0xB1, 0xB1, 0xB1] 512
  let message (k : Nat) : Bytes := datagram session ⟨0x001, 0x05⟩ k
  let acknack (firstUnacked bitmap : UInt8) : Bytes :=
    [0x81, 0, 0, 0, 10, 1, 5, 0, firstUnacked, 0, bitmap, 0, 0x80]
  have hrun : ((net ⟨0x001, 0x05⟩ 2).runGuarded (fun _ _ => True) (.start session)
      [.advance, .advance, .arrive (message 1), .advance, .advance, .acknowledge 0 1,
        .hear (acknack 0 1), .timeUp, .advance, .advance, .arrive (message 0), .advance, .advance,
        .acknowledge 2 0, .hear (acknack 2 0), .timeUp, .advance]).any
      (fun n => n.bench.pc = .finished true ∧ n.bench.ro.retransmitCount = 2 ∧
        n.bench.sent.length = 6) = true := by
    decide +kernel
  obtain ⟨n, hn, hfinished, hresent, hsent⟩ := System.exists_of_runGuarded hrun
  have reach := System.reach_of_runGuarded hn
  exact ⟨n, reach, hfinished, hresent, hsent,
    (reliable_delivery (by decide) ⟨by decide, by decide⟩ (by decide) reach).2 hfinished⟩

end BenchQos

end RtosXrce.Host
