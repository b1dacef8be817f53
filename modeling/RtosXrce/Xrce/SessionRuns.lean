import Mathlib.Data.Prod.Basic
import RtosXrce.Library.Machine
import RtosXrce.Xrce.SessionRoundTrip

/-!
# Numbering over a run of a session

A run is a list of calls on one session. The numbered messages take the sequence number and the
request id from the session and count both up; the handshake and the heartbeats only read it.
-/

namespace RtosXrce.Xrce.Session

open Library Cdr

/-- The message a builder is called for. -/
inductive Message where
  | request (stream : UInt8) (r : Request)
  | createClient
  | heartbeat (streamIdRaw targetStreamRaw : UInt8) (firstUnacked lastSent : UInt16)

def Message.build : Message → Build
  | .request stream r => r.build stream
  | .createClient => buildCreateClient
  | .heartbeat streamIdRaw targetStreamRaw firstUnacked lastSent =>
    buildHeartbeat streamIdRaw targetStreamRaw firstUnacked lastSent

def Message.numbered : Message → Bool
  | .request .. => true
  | .createClient | .heartbeat .. => false

/-- A message and the buffer it is to be built in. -/
structure Call where
  message : Message
  buf : Nat → UInt8
  cap : Nat

/-- A call that took place, with the session it found. -/
structure Done where
  message : Message
  before : Session
  built : Built

def call (s : Session) (c : Call) : Session × Done :=
  ((c.message.build s c.buf c.cap).session, ⟨c.message, s, c.message.build s c.buf c.cap⟩)

def run (s : Session) (calls : List Call) : List Done := outputs call s calls

/-- The calls of a run that built a numbered message. -/
def numbered (run : List Done) : List Done := run.filter fun d => d.message.numbered

/-- The sequence number in a message. -/
def Built.seqNum (b : Built) : UInt16 := gatherU16 #v[b.buf 2, b.buf 3]

/-- The request id in a numbered message. -/
def Built.requestId (b : Built) : UInt16 := (b.buf 12).toUInt16 <<< 8 ||| (b.buf 13).toUInt16

theorem session_buildControl (header payload : Session → Write Unit) (id : UInt8) (s : Session)
    (buf : Nat → UInt8) (cap : Nat) : (buildControl header payload id s buf cap).session = s := by
  unfold buildControl
  split
  · rfl
  · split
    · rfl
    · split <;> rfl

theorem call_unnumbered (s : Session) {c : Call} (hc : c.message.numbered = false) :
    (call s c).1 = s := by
  obtain ⟨m, buf, cap⟩ := c
  cases m with
  | request stream r => cases hc
  | createClient => exact session_buildControl _ _ _ s buf cap
  | heartbeat => exact session_buildControl _ _ _ s buf cap

/-- Where the two numbers stand in a message. -/
theorem getD_message (s : Session) (id stream : UInt8) (oid : ObjectId) (body : Bytes) :
    #v[(message s id stream oid body).getD 2 0, (message s id stream oid body).getD 3 0] =
        wordBuf 2 s.outSeqNum.toBitVec ∧
      #v[(message s id stream oid body).getD 12 0, (message s id stream oid body).getD 13 0] =
        requestIdRaw s.nextRequestId := by
  have hlen := length_prefixBytes s id stream (UInt16.ofNat (4 + body.length))
  have hpayload (i : Nat) : (message s id stream oid body).getD (12 + i) 0 =
      (requestBytes s.nextRequestId oid ++ body).getD i 0 := by
    rw [message, List.getD_append_right _ _ _ _ (by omega), hlen, Nat.add_sub_cancel_left]
  refine ⟨rfl, ?_⟩
  rw [hpayload 0, hpayload 1]
  rfl

/-- A numbered message takes its numbers from the session, which moves on by one. -/
theorem call_numbered {s : Session} {c : Call} (hc : c.message.numbered = true)
    (hsize : (call s c).2.built.size ≠ 0) :
    (call s c).2.built.seqNum = s.outSeqNum ∧ (call s c).2.built.requestId = s.nextRequestId ∧
      (call s c).1 = s.next := by
  obtain ⟨m, buf, cap⟩ := c
  cases m with
  | createClient => cases hc
  | heartbeat => cases hc
  | request stream r =>
    obtain ⟨body, hbuild⟩ := Request.build_of_size_ne_zero hsize
    obtain ⟨hseqNum, hrequestId⟩ := getD_message s r.submessageId stream r.objectId body
    have hlen := length_message s r.submessageId stream r.objectId body
    have hstore (i : Nat) (hi : i < 16) :
        store buf 0 (message s r.submessageId stream r.objectId body) i =
          (message s r.submessageId stream r.objectId body).getD i 0 := if_pos (by omega)
    simp only [call, Message.build, hbuild, Built.seqNum, Built.requestId, hstore, Nat.reduceLT]
    refine ⟨?_, ?_, trivial⟩
    · rw [hseqNum]
      exact UInt16.toBitVec_inj.mp (gatherU16_wordBuf s.outSeqNum.toBitVec)
    · have hraw : (requestIdRaw s.nextRequestId)[0].toUInt16 <<< 8 |||
          (requestIdRaw s.nextRequestId)[1].toUInt16 = s.nextRequestId :=
        unpack_requestId s.nextRequestId
      rwa [← hrequestId] at hraw

/-! ## Failed calls -/

/-- What a call that returns 0 is meant to leave: the session as it was, so that the next message
that is built takes the numbers this one would have had. -/
structure FailsClean (s : Session) (c : Call) : Prop where
  session : (call s c).2.built.size = 0 → (call s c).1 = s
  continues : (call s c).2.built.size = 0 → ∀ later : Call, later.message.numbered = true →
    (call (call s c).1 later).2.built.size ≠ 0 →
    (call (call s c).1 later).2.built.seqNum = s.outSeqNum ∧
      (call (call s c).1 later).2.built.requestId = s.nextRequestId

/-- The numbered messages of a run can be built where they are asked for. -/
def Call.Fits (c : Call) : Prop :=
  match c.message with
  | .request _ r => r.Fits c.cap
  | .createClient | .heartbeat .. => True

/-- A call fails clean exactly when it is for a message without a number, or its buffer does not
even hold the message header, or the message fits. -/
theorem failsClean_iff (s : Session) (c : Call) :
    FailsClean s c ↔ c.message.numbered = false ∨ c.cap < 8 ∨ c.Fits := by
  have hclean (hkeep : (call s c).2.built.size = 0 → (call s c).1 = s) : FailsClean s c := by
    refine ⟨hkeep, fun hzero later hlater hsize => ?_⟩
    rw [hkeep hzero] at hsize ⊢
    obtain ⟨hseqNum, hrequestId, -⟩ := call_numbered hlater hsize
    exact ⟨hseqNum, hrequestId⟩
  cases hc : c.message.numbered with
  | false =>
    simp only [true_or, iff_true]
    exact hclean fun _ => call_unnumbered s hc
  | true =>
    obtain ⟨m, buf, cap⟩ := c
    cases m with
    | createClient | heartbeat => cases hc
    | request stream r =>
      have hzero := r.size_build_eq_zero_iff stream s buf cap
      have hsession := r.session_build stream s buf cap
      simp only [Bool.true_eq_false, false_or, Call.Fits]
      constructor
      · intro h
        by_contra! hneither
        obtain ⟨hhead, hfits⟩ := hneither
        have hsame := h.session (hzero.mpr hfits)
        have hseqNum := congrArg Session.outSeqNum (hsession.symm.trans hsame)
        -- past the header the sequence number has moved, and a 16-bit number is not its successor
        have hmoved : s.outSeqNum + 1 ≠ s.outSeqNum := by simp
        rw [if_neg (Nat.not_lt.mpr hhead)] at hseqNum
        split at hseqNum <;> exact hmoved hseqNum
      · rintro (hhead | hfits)
        · exact hclean fun _ => hsession.trans (if_pos hhead)
        · exact hclean fun hfailed => absurd hfits (hzero.mp hfailed)

/-- A delete that has no room for its request burns a sequence number and a request id. -/
theorem delete_burns_numbers :
    let s := init 1 #v[1, 2, 3, 4] 512
    let c : Call := ⟨.request 0x80 (.delete ⟨1, 1⟩), fun _ => 0, 15⟩
    (call s c).2.built.size = 0 ∧ (call s c).1.outSeqNum = 1 ∧ (call s c).1.nextRequestId = 10 ∧
      ¬ FailsClean s c := by
  intro s c
  refine ⟨by decide, by decide, by decide, fun h => ?_⟩
  have hsame := h.session (by decide)
  exact absurd hsame (by decide)

/-! ## Runs -/

/-- Every numbered message of the run was built. -/
def AllBuilt (run : List Done) : Prop := ∀ d ∈ run, d.message.numbered → d.built.size ≠ 0

/-- What the numbering is meant to be: consecutive sequence numbers modulo `2 ^ 16`, taken by the
numbered messages only, and request ids above the reserved ones. -/
structure WellNumbered (run : List Done) : Prop where
  seqNum : ∀ k d, (numbered run)[k]? = some d → d.built.seqNum.toNat = k % 2 ^ 16
  unnumbered : ∀ d ∈ run, d.message.numbered = false → d.built.session = d.before
  requestId : ∀ d ∈ numbered run, 8 < d.built.requestId

theorem toNat_iterate_add_one (k : Nat) (n : UInt16) :
    ((· + 1)^[k] n).toNat = (n.toNat + k) % 2 ^ 16 := by
  induction k generalizing n with
  | zero => exact (Nat.mod_eq_of_lt n.toNat_lt).symm
  | succ k ih =>
    rw [Function.iterate_succ_apply, ih, UInt16.toNat_add]
    change ((n.toNat + 1) % 2 ^ 16 + k) % 2 ^ 16 = _
    omega

/-- The numbers of the `k`-th numbered message, with the wrap of both counters. -/
theorem numbers_run {s : Session} {calls : List Call} (hbuilt : AllBuilt (run s calls)) {k : Nat}
    {d : Done} (hd : (numbered (run s calls))[k]? = some d) :
    d.built.seqNum.toNat = (s.outSeqNum.toNat + k) % 2 ^ 16 ∧
      d.built.requestId.toNat = (s.nextRequestId.toNat + k) % 2 ^ 16 := by
  have hnumbers : (d.built.seqNum, d.built.requestId) =
      (Prod.map (· + 1) (· + 1))^[k] (s.outSeqNum, s.nextRequestId) := by
    refine outputs_counted (fun s : Session => (s.outSeqNum, s.nextRequestId))
      (fun d : Done => (d.built.seqNum, d.built.requestId)) ?_ ?_ hbuilt hd
    · intro s c hok hcounted
      obtain ⟨hseqNum, hrequestId, hnext⟩ := call_numbered hcounted (hok hcounted)
      rw [hseqNum, hrequestId, hnext]
      exact ⟨rfl, rfl⟩
    · intro s c hother
      rw [call_unnumbered s hother]
  rw [Prod.map_iterate] at hnumbers
  obtain ⟨hseqNum, hrequestId⟩ := Prod.mk.inj hnumbers
  rw [hseqNum, hrequestId]
  exact ⟨toNat_iterate_add_one k s.outSeqNum, toNat_iterate_add_one k s.nextRequestId⟩

theorem length_numbered (s : Session) (calls : List Call) :
    (numbered (run s calls)).length = (calls.filter fun c => c.message.numbered).length := by
  induction calls generalizing s with
  | nil => rfl
  | cons c calls ih =>
    have hrest := ih (call s c).1
    change (numbered ((call s c).2 :: run (call s c).1 calls)).length = _
    cases hc : c.message.numbered with
    | true =>
      have hdone : (call s c).2.message.numbered = true := hc
      simpa [numbered, hdone, hc] using hrest
    | false =>
      have hdone : (call s c).2.message.numbered = false := hc
      simpa [numbered, hdone, hc] using hrest

section FromInit

variable {sessionId : UInt8} {clientKey : Vector UInt8 4} {mtu : UInt16} {calls : List Call}

/-- The first request id after the wrap is 0. -/
theorem exists_requestId_zero (hbuilt : AllBuilt (run (init sessionId clientKey mtu) calls))
    (hmany : 65527 < (calls.filter fun c => c.message.numbered).length) :
    ∃ d ∈ numbered (run (init sessionId clientKey mtu) calls), d.built.requestId = 0 := by
  rw [← length_numbered (init sessionId clientKey mtu)] at hmany
  have hd := List.getElem?_eq_getElem hmany
  have hstart : (init sessionId clientKey mtu).nextRequestId.toNat = 9 := rfl
  refine ⟨_, List.getElem_mem hmany, UInt16.toNat_inj.mp ?_⟩
  rw [(numbers_run hbuilt hd).2, hstart]
  rfl

/-- A run keeps to the numbering exactly as long as the request id does not wrap. -/
theorem wellNumbered_iff (hbuilt : AllBuilt (run (init sessionId clientKey mtu) calls)) :
    WellNumbered (run (init sessionId clientKey mtu) calls) ↔
      (calls.filter fun c => c.message.numbered).length ≤ 65527 := by
  constructor
  · intro hwell
    by_contra hmany
    obtain ⟨d, hd, hzero⟩ := exists_requestId_zero hbuilt (Nat.not_le.mp hmany)
    have habove := hwell.requestId d hd
    rw [hzero] at habove
    exact absurd habove (by decide)
  · intro hfew
    refine ⟨fun k d hd => ?_, fun d hd hother => ?_, fun d hd => ?_⟩
    · have hstart : (init sessionId clientKey mtu).outSeqNum.toNat = 0 := rfl
      rw [(numbers_run hbuilt hd).1, hstart, Nat.zero_add]
    · obtain ⟨s, c, -, rfl⟩ := exists_of_mem_outputs hd
      exact call_unnumbered s hother
    · obtain ⟨k, hk, rfl⟩ := List.mem_iff_getElem.mp hd
      have hrequestId := (numbers_run hbuilt (List.getElem?_eq_getElem hk)).2
      have hstart : (init sessionId clientKey mtu).nextRequestId.toNat = 9 := rfl
      rw [length_numbered] at hk
      apply UInt16.lt_iff_toNat_lt.mpr
      rw [hrequestId, hstart]
      change 8 < (9 + k) % 2 ^ 16
      omega

end FromInit

theorem wellNumbered_iff_first :
    let calls : List Call := [⟨.createClient, fun _ => 0, 64⟩,
      ⟨.request 0x80 (.delete ⟨1, 1⟩), fun _ => 0, 16⟩, ⟨.heartbeat 0 0x80 0 0, fun _ => 0, 3⟩,
      ⟨.request 0x80 (.writeData ⟨1, 5⟩ [0xAB]), fun _ => 0, 17⟩]
    AllBuilt (run (init 1 #v[1, 2, 3, 4] 512) calls) ∧
      WellNumbered (run (init 1 #v[1, 2, 3, 4] 512) calls) := by
  intro calls
  have hbuilt : AllBuilt (run (init 1 #v[1, 2, 3, 4] 512) calls) := by
    unfold AllBuilt
    decide
  exact ⟨hbuilt, (wellNumbered_iff hbuilt).mpr (by decide)⟩

/-- One message more than there are request ids above the reserved ones. -/
theorem not_wellNumbered_deletes :
    let calls : List Call := List.replicate 65528
      ⟨.request 0x80 (.delete ⟨1, 1⟩), fun _ => 0, 16⟩
    AllBuilt (run (init 1 #v[1, 2, 3, 4] 512) calls) ∧
      ¬ WellNumbered (run (init 1 #v[1, 2, 3, 4] 512) calls) := by
  intro calls
  have hbuilt : AllBuilt (run (init 1 #v[1, 2, 3, 4] 512) calls) := by
    intro d hd _
    obtain ⟨s, c, hc, rfl⟩ := exists_of_mem_outputs hd
    obtain rfl := List.eq_of_mem_replicate hc
    have hfits := Request.build_fits (.delete ⟨1, 1⟩) 0x80 s (fun _ => 0) rfl (le_refl 16)
    simp only [call, Message.build, hfits]
    decide
  refine ⟨hbuilt, fun hwell => ?_⟩
  have hcount : (calls.filter fun c => c.message.numbered).length = 65528 := by
    rw [List.filter_replicate_of_pos rfl, List.length_replicate]
  obtain ⟨d, hd, hzero⟩ := exists_requestId_zero hbuilt (by rw [hcount]; decide)
  have habove := hwell.requestId d hd
  rw [hzero] at habove
  exact absurd habove (by decide)

end RtosXrce.Xrce.Session
