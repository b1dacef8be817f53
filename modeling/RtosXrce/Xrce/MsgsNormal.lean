import RtosXrce.Xrce.MsgsRoundTrip

/-!
# Decoding normalises

A decoder takes any padding, any nonzero boolean and strings cut short by a NUL, and what follows
the message. Encoded again, the value it returns takes no more room than it was read from: every
field ends no later when it starts no later, through alignment and nested sequences. `Replaces`
says so of one stretch of the input, and follows the nesting of the decoders.
-/

namespace RtosXrce.Xrce.Msgs

open Library Library.Fallible Cdr

/-- What was read between `r` and `r'` can be written by `write` in the same room, from wherever
the encoding has got to that is not behind the input. -/
structure Replaces (write : Write Unit) (r r' : Reader) : Prop where
  wf : r'.Wf
  len : r'.len = r.len
  base : r'.alignBase = r.alignBase
  spans : ∃ f, Emits write f ∧ ∀ off ≤ r.off, ∃ stop ≤ r'.off, f.Spans off stop

theorem Replaces.pure {r : Reader} (wf : r.Wf) : Replaces (Pure.pure ()) r r where
  wf := wf
  len := rfl
  base := rfl
  spans := ⟨_, .pure, fun off h => ⟨off, h, Format.spans_raw [] off⟩⟩

theorem Replaces.seq {write write' : Write Unit} {r r' r'' : Reader} (h : Replaces write r r')
    (h' : Replaces write' r' r'') : Replaces (do write; write') r r'' where
  wf := h'.wf
  len := h'.len.trans h.len
  base := h'.base.trans h.base
  spans := by
    obtain ⟨f, hemits, hspans⟩ := h.spans
    obtain ⟨g, hemits', hspans'⟩ := h'.spans
    refine ⟨f.seq g, hemits.seq hemits', fun off hoff => ?_⟩
    obtain ⟨mid, hmid, hf⟩ := hspans off hoff
    obtain ⟨stop, hstop, hg⟩ := hspans' mid hmid
    exact ⟨stop, hstop, hf.seq hg⟩

/-- Every value read can be written in the room it was read from. -/
def Shrinks {α : Type} (read : Read α) (write : α → Write Unit) : Prop :=
  ∀ r a r', r.Wf → exec read r = (some a, r') → Replaces (write a) r r'

section

variable {α β : Type} {read : Read α} {write : α → Write Unit}

/-- The first field of a successful read. -/
theorem Shrinks.first (h : Shrinks read write) {k : α → Read β} {r r' : Reader} {b : β} (wf : r.Wf)
    (hexec : exec (read >>= k) r = (some b, r')) :
    ∃ a u, Replaces (write a) r u ∧ exec (k a) u = (some b, r') := by
  obtain ⟨a, u, hread, hrest⟩ := exec_bind_eq_some hexec
  exact ⟨a, u, h r a u wf hread, hrest⟩

theorem Shrinks.map {g : α → β} {write : β → Write Unit}
    (h : Shrinks read fun a => write (g a)) : Shrinks (do let a ← read; return g a) write := by
  intro r b r' wf hexec
  obtain ⟨a, u, hread, hrest⟩ := h.first wf hexec
  cases hrest
  exact hread

end

/-! ## Fields -/

theorem exec_fetch_eq_some {n : Nat} {r r' : Reader} {v : Vector UInt8 n}
    (h : exec (fetch n) r = (some v, r')) :
    n ≤ r.rest.length ∧ v = Vector.ofFn (fun i => r.buf (r.pos + i)) ∧ r' = r.skip n := by
  rw [exec_fetch] at h
  split at h
  next room =>
    cases h
    exact ⟨room, rfl, rfl⟩
  next => cases h

theorem shrinks_fetch {n : Nat} {write : Vector UInt8 n → Write Unit} {f : Vector UInt8 n → Format}
    (hemits : ∀ v, Emits (write v) (f v)) (hspans : ∀ v off, (f v).Spans off (off + n)) :
    Shrinks (fetch n) write := by
  intro r v r' wf hexec
  obtain ⟨room, -, rfl⟩ := exec_fetch_eq_some hexec
  refine ⟨wf.skip room, rfl, rfl, f v, hemits v, fun off hoff => ?_⟩
  exact ⟨off + n, by rw [wf.off_skip]; omega, hspans v off⟩

theorem shrinks_bytes (n : Nat) : Shrinks (readBytes n) fun v => writeBytes v.toList :=
  shrinks_fetch (fun v => emits_emit v.toList) fun v off => by
    simpa using Format.spans_raw v.toList off

theorem spans_octet (v : UInt8) (off : Nat) : (word 1 v.toBitVec).Spans off (off + 1) := by
  rw [word_one]
  exact Format.spans_raw [v] off

theorem shrinks_u8 : Shrinks readU8 writeU8 :=
  Shrinks.map (shrinks_fetch (fun _ => emits_u8 _) fun _ off => spans_octet _ off)

theorem shrinks_bool : Shrinks readBool writeBool :=
  Shrinks.map (Shrinks.map (shrinks_fetch (fun _ => emits_u8 _) fun _ off => spans_octet _ off))

/-- A word is read behind padding and written behind no more of it. -/
theorem shrinks_word {α : Type} {k : Nat} (hk : 0 < k) (g : Vector UInt8 k → α)
    {write : α → Write Unit} {w : α → BitVec (8 * k)}
    (hemits : ∀ a, Emits (write a) (word k (w a))) :
    Shrinks (do alignReader k; let b ← fetch k; return g b) write := by
  intro r a r' wf hexec
  obtain ⟨_, u, halign, hrest⟩ := exec_bind_eq_some hexec
  rw [exec_alignReader hk] at halign
  split at halign
  next room =>
    cases halign
    have wf' := wf.skip room
    obtain ⟨b, u, hfetch, hrest⟩ := exec_bind_eq_some hrest
    obtain ⟨room', -, rfl⟩ := exec_fetch_eq_some hfetch
    cases hrest
    refine ⟨wf'.skip room', rfl, rfl, _, hemits _, fun off hoff => ?_⟩
    have mono := Format.add_padding_mono hk hoff
    exact ⟨_, by rw [wf'.off_skip, wf.off_skip]; omega, spans_word k _ off⟩
  next => cases halign

theorem shrinks_u32 : Shrinks readU32 writeU32 := shrinks_word (by decide) _ emits_u32

theorem shrinks_i32 : Shrinks readI32 writeI32 :=
  Shrinks.map (shrinks_word (by decide) _ fun u => emits_i32 u.toInt32)

theorem shrinks_f64 : Shrinks readF64 writeF64 := shrinks_word (by decide) _ emits_f64

theorem writeString_eq {s : CString} (short : s.chars.length + 1 < 2 ^ 32) :
    writeString s =
      (do writeU32 (UInt32.ofNat (s.chars.length + 1)); emit (s.chars ++ [0])) := by
  have hsize : UInt32.size = 2 ^ 32 := rfl
  have hlen : ¬ s.chars.length + 1 > UInt32.size - 1 := by omega
  simp only [writeString, if_neg hlen]

/-- A string ends at its first NUL, at the latest with the bytes it was read from. -/
theorem shrinks_string (n : Nat) :
    Shrinks (readString n) fun s => writeString s.toCString := by
  intro r s r' wf hexec
  obtain ⟨slen, u, hread, hrest⟩ := exec_bind_eq_some hexec
  -- the count that is written may be another one, but takes as much room
  have hcount (c : UInt32) : Replaces (writeU32 c) r u := by
    have any : Shrinks readU32 fun _ => writeU32 c :=
      shrinks_word (by decide) _ fun _ => emits_u32 c
    exact any r slen u wf hread
  split at hrest
  next room =>
    obtain ⟨out, v, hfetch, hrest⟩ := exec_bind_eq_some hrest
    obtain ⟨inside, -, rfl⟩ := exec_fetch_eq_some hfetch
    split at hrest
    next terminated =>
      cases hrest
      have short := CString.length_ofBytes_lt _ room.1 terminated
      have count_lt := slen.toNat_lt
      change Replaces (writeString (CString.ofBytes _)) r _
      rw [writeString_eq (by omega)]
      refine (hcount _).seq ⟨(hcount 0).wf.skip inside, rfl, rfl, _, emits_emit _, ?_⟩
      intro off hoff
      refine ⟨_, ?_, Format.spans_raw _ off⟩
      rw [(hcount 0).wf.off_skip, List.length_append, List.length_singleton]
      omega
    next => cases hrest
  next => cases hrest

section

variable {α : Type} {read : Read α} {write : α → Write Unit}

theorem shrinks_many (h : Shrinks read write) (n : Nat) :
    Shrinks (readMany read n) fun l => l.val.forM write := by
  induction n with
  | zero =>
    intro r l r' wf hexec
    cases hexec
    exact .pure wf
  | succ n ih =>
    intro r l r' wf hexec
    obtain ⟨a, u, hread, hrest⟩ := h.first wf hexec
    obtain ⟨l, v, hmany, hrest⟩ := ih.first hread.wf hrest
    cases hrest
    exact hread.seq hmany

theorem shrinks_sequence (h : Shrinks read write) (n : Nat) :
    Shrinks (readSequence read n) fun s => writeSequence write s.toSequence := by
  intro r s r' wf hexec
  obtain ⟨count, u, hcount, hrest⟩ := shrinks_u32.first wf hexec
  split at hrest
  next fits =>
    obtain ⟨l, v, hmany, hrest⟩ := (shrinks_many h count.toNat).first hcount.wf hrest
    cases hrest
    have same : UInt32.ofNat l.val.length = count := by rw [l.property, UInt32.ofNat_toNat]
    rw [← same] at hcount
    exact hcount.seq hmany
  next => cases hrest

end

/-! ## Parts shared by several messages -/

theorem shrinks_vec3 : Shrinks readVec3 writeVec3 := by
  intro r v r' wf h
  obtain ⟨x, r1, hx, h⟩ := shrinks_f64.first wf h
  obtain ⟨y, r2, hy, h⟩ := shrinks_f64.first hx.wf h
  obtain ⟨z, r3, hz, h⟩ := shrinks_f64.first hy.wf h
  cases h
  exact hx.seq (hy.seq hz)

theorem shrinks_cov : Shrinks readCov writeCov := by
  intro r cov r' wf h
  obtain ⟨l, r1, hl, h⟩ := (shrinks_many shrinks_f64 9).first wf h
  cases h
  exact hl

theorem shrinks_fibonacciResult : Shrinks readFibonacciResult writeFibonacciResult :=
  Shrinks.map (shrinks_sequence shrinks_i32 seqI32Max)

theorem shrinks_goalInfo : Shrinks readGoalInfo writeGoalInfo := by
  intro r v r' wf h
  obtain ⟨goalId, r1, hid, h⟩ := (shrinks_bytes uuidSize).first wf h
  obtain ⟨sec, r2, hsec, h⟩ := shrinks_i32.first hid.wf h
  obtain ⟨nanosec, r3, hnanosec, h⟩ := shrinks_u32.first hsec.wf h
  cases h
  exact hid.seq (hsec.seq hnanosec)

theorem shrinks_goalStatus : Shrinks readGoalStatus writeGoalStatus := by
  intro r v r' wf h
  obtain ⟨goalInfo, r1, hinfo, h⟩ := shrinks_goalInfo.first wf h
  obtain ⟨status, r2, hstatus, h⟩ := shrinks_u8.first hinfo.wf h
  cases h
  exact hinfo.seq hstatus

theorem shrinks_keyValue : Shrinks readKeyValue writeKeyValue := by
  intro r kv r' wf h
  obtain ⟨key, r1, hkey, h⟩ := (shrinks_string diagStrMax).first wf h
  obtain ⟨value, r2, hvalue, h⟩ := (shrinks_string diagStrMax).first hkey.wf h
  cases h
  exact hkey.seq hvalue

theorem shrinks_diagnosticStatus : Shrinks readDiagnosticStatus writeDiagnosticStatus := by
  intro r s r' wf h
  obtain ⟨level, r1, hlevel, h⟩ := shrinks_u8.first wf h
  obtain ⟨name, r2, hname, h⟩ := (shrinks_string diagStrMax).first hlevel.wf h
  obtain ⟨message, r3, hmessage, h⟩ := (shrinks_string diagStrMax).first hname.wf h
  obtain ⟨hardwareId, r4, hid, h⟩ := (shrinks_string diagStrMax).first hmessage.wf h
  obtain ⟨values, r5, hvalues, h⟩ := (shrinks_sequence shrinks_keyValue kvMax).first hid.wf h
  cases h
  exact hlevel.seq (hname.seq (hmessage.seq (hid.seq hvalues)))

theorem shrinks_imu : Shrinks SensorMsgsImu.read SensorMsgsImu.write := by
  intro r msg r' wf h
  obtain ⟨sec, r1, hsec, h⟩ := shrinks_i32.first wf h
  obtain ⟨nanosec, r2, hnanosec, h⟩ := shrinks_u32.first hsec.wf h
  obtain ⟨frameId, r3, hframe, h⟩ := (shrinks_string frameIdMax).first hnanosec.wf h
  obtain ⟨x, r4, hx, h⟩ := shrinks_f64.first hframe.wf h
  obtain ⟨y, r5, hy, h⟩ := shrinks_f64.first hx.wf h
  obtain ⟨z, r6, hz, h⟩ := shrinks_f64.first hy.wf h
  obtain ⟨w, r7, hw, h⟩ := shrinks_f64.first hz.wf h
  obtain ⟨orientation, r8, ho, h⟩ := shrinks_cov.first hw.wf h
  obtain ⟨angular, r9, ha, h⟩ := shrinks_vec3.first ho.wf h
  obtain ⟨angularCov, r10, hac, h⟩ := shrinks_cov.first ha.wf h
  obtain ⟨linear, r11, hl, h⟩ := shrinks_vec3.first hac.wf h
  obtain ⟨linearCov, r12, hlc, h⟩ := shrinks_cov.first hl.wf h
  cases h
  exact hsec.seq <| hnanosec.seq <| hframe.seq <| hx.seq <| hy.seq <| hz.seq <| hw.seq <|
    ho.seq <| ha.seq <| hac.seq <| hl.seq hlc

/-! ## Messages -/

/-- What a decoder accepts can be encoded again in the room it was accepted from, and decodes to
the same message. -/
def Normalises {α : Type} (encode : α → (Nat → UInt8) → Nat → Option Nat × (Nat → UInt8))
    (decode : (Nat → UInt8) → Nat → Option α) : Prop :=
  ∀ buf n m, decode buf n = some m → ∀ out, ∃ k out',
    encode m out n = (some k, out') ∧ k ≤ n ∧ decode out' k = some m

theorem exec_readHeader_eq_some {buf : Nat → UInt8} {n : Nat} {u : Unit} {r : Reader}
    (h : exec readHeader (readerInit buf n) = (some u, r)) :
    4 ≤ n ∧ r = readerHeaded buf n := by
  obtain ⟨b, v, hfetch, hrest⟩ := exec_bind_eq_some h
  obtain ⟨room, -, rfl⟩ := exec_fetch_eq_some hfetch
  refine ⟨by simpa [rest_readerInit] using room, ?_⟩
  rw [exec_modify, exec_ite] at hrest
  split at hrest
  next =>
    cases hrest
    rfl
  next => cases hrest

theorem Shrinks.normalises {α : Type} {read : Read α} {write : α → Write Unit}
    (h : Shrinks read write)
    (inverse : Inverse (fun a => Msgs.encode (write a)) (Msgs.decode read)) :
    Normalises (fun a => Msgs.encode (write a)) (Msgs.decode read) := by
  intro buf n m hdecode out
  obtain ⟨r', hexec⟩ : ∃ r', exec (do readHeader; read) (readerInit buf n) = (some m, r') :=
    ⟨_, Prod.ext hdecode rfl⟩
  obtain ⟨_, _, hheader, hread⟩ := exec_bind_eq_some hexec
  obtain ⟨four, rfl⟩ := exec_readHeader_eq_some hheader
  have replaced := h _ _ _ ⟨Nat.le_refl 4, four⟩ hread
  obtain ⟨f, hemits, hspans⟩ := replaced.spans
  obtain ⟨stop, hstop, body, hbody, hlen⟩ := hspans 0 (Nat.zero_le _)
  have hroom : 4 + body.length ≤ n := by
    have hpos := replaced.wf.pos_le
    rw [replaced.len] at hpos
    simp only [Reader.off, replaced.base, readerHeaded] at hstop hpos
    omega
  obtain ⟨e, hencode, hdecode', -⟩ := inverse m
  -- with room for both, the encoding is the one the decoder takes
  have hsame : e.length = 4 + body.length := by
    have href : (f 0).map (encapsulation ++ ·) = some (encapsulation ++ body) := by
      rw [hbody]
      rfl
    have htotal : (encapsulation ++ body).length = 4 + body.length := List.length_append
    obtain ⟨_, henc, -⟩ := hencode out (max e.length (4 + body.length)) (Nat.le_max_left _ _)
    obtain ⟨w, hw, hwritten, -⟩ := hemits.writes_header.fits out (max e.length (4 + body.length))
      href (htotal.trans_le (Nat.le_max_right _ _))
    have hpos := w.length_written
    rw [hwritten, htotal] at hpos
    simp only [Msgs.encode, hw, Option.map_some, Prod.mk.injEq, Option.some.injEq] at henc
    omega
  obtain ⟨out', henc, hbytes⟩ := hencode out n (by omega)
  have hread : bytesOf out' e.length = e ++ [] := by rw [hbytes, List.append_nil]
  exact ⟨e.length, out', henc, by omega, hdecode' out' e.length [] hread⟩

theorem normalises_int32 : Normalises StdMsgsInt32.encode StdMsgsInt32.decode :=
  Shrinks.normalises (Shrinks.map shrinks_i32) inverse_int32

theorem normalises_string : Normalises StdMsgsString.encode StdMsgsString.decode :=
  Shrinks.normalises (Shrinks.map (shrinks_string stringMax)) inverse_string

theorem normalises_imu : Normalises SensorMsgsImu.encode SensorMsgsImu.decode :=
  Shrinks.normalises shrinks_imu inverse_imu

theorem normalises_twist : Normalises GeometryMsgsTwist.encode GeometryMsgsTwist.decode := by
  refine Shrinks.normalises ?_ inverse_twist
  intro r msg r' wf h
  obtain ⟨linear, r1, hl, h⟩ := shrinks_vec3.first wf h
  obtain ⟨angular, r2, ha, h⟩ := shrinks_vec3.first hl.wf h
  cases h
  exact hl.seq ha

theorem normalises_triggerRequest :
    Normalises StdSrvsTriggerRequest.encode StdSrvsTriggerRequest.decode := by
  refine Shrinks.normalises ?_ inverse_triggerRequest
  intro r msg r' wf h
  cases h
  exact .pure wf

theorem normalises_triggerResponse :
    Normalises StdSrvsTriggerResponse.encode StdSrvsTriggerResponse.decode := by
  refine Shrinks.normalises ?_ inverse_triggerResponse
  intro r msg r' wf h
  obtain ⟨success, r1, hs, h⟩ := shrinks_bool.first wf h
  obtain ⟨message, r2, hm, h⟩ := (shrinks_string stringMax).first hs.wf h
  cases h
  exact hs.seq hm

theorem normalises_sendGoalRequest :
    Normalises FibonacciSendGoalRequest.encode FibonacciSendGoalRequest.decode := by
  refine Shrinks.normalises ?_ inverse_sendGoalRequest
  intro r msg r' wf h
  obtain ⟨goalId, r1, hid, h⟩ := (shrinks_bytes uuidSize).first wf h
  obtain ⟨order, r2, ho, h⟩ := shrinks_i32.first hid.wf h
  cases h
  exact hid.seq ho

theorem normalises_sendGoalResponse :
    Normalises FibonacciSendGoalResponse.encode FibonacciSendGoalResponse.decode := by
  refine Shrinks.normalises ?_ inverse_sendGoalResponse
  intro r msg r' wf h
  obtain ⟨accepted, r1, ha, h⟩ := shrinks_bool.first wf h
  obtain ⟨sec, r2, hsec, h⟩ := shrinks_i32.first ha.wf h
  obtain ⟨nanosec, r3, hnanosec, h⟩ := shrinks_u32.first hsec.wf h
  cases h
  exact ha.seq (hsec.seq hnanosec)

theorem normalises_getResultRequest :
    Normalises FibonacciGetResultRequest.encode FibonacciGetResultRequest.decode :=
  Shrinks.normalises (Shrinks.map (shrinks_bytes uuidSize)) inverse_getResultRequest

theorem normalises_getResultResponse :
    Normalises FibonacciGetResultResponse.encode FibonacciGetResultResponse.decode := by
  refine Shrinks.normalises ?_ inverse_getResultResponse
  intro r msg r' wf h
  obtain ⟨status, r1, hstatus, h⟩ := shrinks_u8.first wf h
  obtain ⟨result, r2, hresult, h⟩ := shrinks_fibonacciResult.first hstatus.wf h
  cases h
  exact hstatus.seq hresult

theorem normalises_feedbackMessage :
    Normalises FibonacciFeedbackMessage.encode FibonacciFeedbackMessage.decode := by
  refine Shrinks.normalises ?_ inverse_feedbackMessage
  intro r msg r' wf h
  obtain ⟨goalId, r1, hid, h⟩ := (shrinks_bytes uuidSize).first wf h
  obtain ⟨feedback, r2, hf, h⟩ := shrinks_fibonacciResult.first hid.wf h
  cases h
  exact hid.seq hf

theorem normalises_goalStatus :
    Normalises ActionMsgsGoalStatus.encode ActionMsgsGoalStatus.decode :=
  Shrinks.normalises shrinks_goalStatus inverse_goalStatus

theorem normalises_goalStatusArray :
    Normalises ActionMsgsGoalStatusArray.encode ActionMsgsGoalStatusArray.decode :=
  Shrinks.normalises (Shrinks.map (shrinks_sequence shrinks_goalStatus goalStatusMax))
    inverse_goalStatusArray

theorem normalises_cancelGoalRequest :
    Normalises ActionMsgsCancelGoalRequest.encode ActionMsgsCancelGoalRequest.decode :=
  Shrinks.normalises (Shrinks.map shrinks_goalInfo) inverse_cancelGoalRequest

theorem normalises_cancelGoalResponse :
    Normalises ActionMsgsCancelGoalResponse.encode ActionMsgsCancelGoalResponse.decode := by
  refine Shrinks.normalises ?_ inverse_cancelGoalResponse
  intro r msg r' wf h
  obtain ⟨returnCode, r1, hcode, h⟩ := shrinks_u8.first wf h
  obtain ⟨goals, r2, hgoals, h⟩ :=
    (shrinks_sequence shrinks_goalInfo goalStatusMax).first hcode.wf h
  cases h
  exact hcode.seq hgoals

theorem normalises_diagnosticArray :
    Normalises DiagnosticMsgsDiagnosticArray.encode DiagnosticMsgsDiagnosticArray.decode := by
  refine Shrinks.normalises ?_ inverse_diagnosticArray
  intro r msg r' wf h
  obtain ⟨sec, r1, hsec, h⟩ := shrinks_i32.first wf h
  obtain ⟨nanosec, r2, hnanosec, h⟩ := shrinks_u32.first hsec.wf h
  obtain ⟨frameId, r3, hframe, h⟩ := (shrinks_string frameIdMax).first hnanosec.wf h
  obtain ⟨status, r4, hstatus, h⟩ :=
    (shrinks_sequence shrinks_diagnosticStatus diagStatusMax).first hframe.wf h
  cases h
  exact hsec.seq (hnanosec.seq (hframe.seq hstatus))

/-- All sixteen decoders normalise: what they accept has an encoding no longer than the input it
was accepted from, and that decodes to the same message. -/
theorem messages_normalise :
    Normalises StdMsgsInt32.encode StdMsgsInt32.decode ∧
    Normalises StdMsgsString.encode StdMsgsString.decode ∧
    Normalises SensorMsgsImu.encode SensorMsgsImu.decode ∧
    Normalises GeometryMsgsTwist.encode GeometryMsgsTwist.decode ∧
    Normalises StdSrvsTriggerRequest.encode StdSrvsTriggerRequest.decode ∧
    Normalises StdSrvsTriggerResponse.encode StdSrvsTriggerResponse.decode ∧
    Normalises FibonacciSendGoalRequest.encode FibonacciSendGoalRequest.decode ∧
    Normalises FibonacciSendGoalResponse.encode FibonacciSendGoalResponse.decode ∧
    Normalises FibonacciGetResultRequest.encode FibonacciGetResultRequest.decode ∧
    Normalises FibonacciGetResultResponse.encode FibonacciGetResultResponse.decode ∧
    Normalises FibonacciFeedbackMessage.encode FibonacciFeedbackMessage.decode ∧
    Normalises ActionMsgsGoalStatus.encode ActionMsgsGoalStatus.decode ∧
    Normalises ActionMsgsGoalStatusArray.encode ActionMsgsGoalStatusArray.decode ∧
    Normalises ActionMsgsCancelGoalRequest.encode ActionMsgsCancelGoalRequest.decode ∧
    Normalises ActionMsgsCancelGoalResponse.encode ActionMsgsCancelGoalResponse.decode ∧
    Normalises DiagnosticMsgsDiagnosticArray.encode DiagnosticMsgsDiagnosticArray.decode :=
  ⟨normalises_int32, normalises_string, normalises_imu, normalises_twist,
    normalises_triggerRequest, normalises_triggerResponse, normalises_sendGoalRequest,
    normalises_sendGoalResponse, normalises_getResultRequest, normalises_getResultResponse,
    normalises_feedbackMessage, normalises_goalStatus, normalises_goalStatusArray,
    normalises_cancelGoalRequest, normalises_cancelGoalResponse, normalises_diagnosticArray⟩

end RtosXrce.Xrce.Msgs
