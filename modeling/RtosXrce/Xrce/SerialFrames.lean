import RtosXrce.Library.Framing
import RtosXrce.Xrce.SerialTransport

/-!
# The serial frame grammar, its encoder and its reader

The encoder writes a flag and the stuffed octets of a frame, or stops at its capacity. The
reader refines the abstract receiver of `Library.Framing` with the judge of this frame grammar:
`Tracks` ties a reader to the octets since the last flag, and `feed_tracks` is the only place
where the reader's states are unfolded.
-/

namespace RtosXrce.Xrce.Serial

open Library

def stuffing : Stuffing UInt8 where
  flag := flag
  esc := esc
  mask x := x ^^^ xor
  mask_mask x := by rw [UInt8.xor_assoc, UInt8.xor_self, UInt8.xor_zero]
  flag_ne_esc := by decide
  mask_flag_ne := by decide
  mask_esc_ne := by decide

/-- A 16-bit field from its two octets, low first. -/
def word (lsb msb : UInt8) : UInt16 := lsb.toUInt16 ||| msb.toUInt16 <<< 8

theorem toNat_word (lsb msb : UInt8) : (word lsb msb).toNat = lsb.toNat + 256 * msb.toNat := by
  have hl := lsb.toNat_lt
  have hm := msb.toNat_lt
  have hs : msb.toNat <<< 8 = 256 * msb.toNat := by simp [Nat.shiftLeft_eq, Nat.mul_comm]
  have hd : msb.toNat <<< 8 % 65536 = msb.toNat <<< 8 := Nat.mod_eq_of_lt (by omega)
  have hor := Nat.shiftLeft_add_eq_or_of_lt (i := 8) hl msb.toNat
  simp only [word, UInt16.toNat_or, UInt16.toNat_shiftLeft, UInt8.toNat_toUInt16]
  change lsb.toNat ||| msb.toNat <<< 8 % 65536 = _
  rw [hd, Nat.or_comm, ← hor]
  omega

theorem toNat_word_ofNat {n : Nat} (h : n ≤ 65535) :
    (word (UInt8.ofNat n) (UInt8.ofNat (n >>> 8))).toNat = n := by
  rw [toNat_word, UInt8.toNat_ofNat', UInt8.toNat_ofNat', Nat.shiftRight_eq_div_pow]
  omega

theorem word_crc (c : UInt16) : word c.toUInt8 (c >>> 8).toUInt8 = c := by
  have hc := c.toNat_lt
  refine UInt16.toNat_inj.mp ?_
  rw [toNat_word, UInt16.toNat_toUInt8, UInt16.toNat_toUInt8, UInt16.toNat_shiftRight]
  change c.toNat % 256 + 256 * (c.toNat >>> 8 % 256) = c.toNat
  rw [Nat.shiftRight_eq_div_pow]
  omega

theorem word_lsb (lsb msb : UInt8) : (word lsb msb).toUInt8 = lsb := by
  have hl := lsb.toNat_lt
  apply UInt8.toNat_inj.mp
  rw [UInt16.toNat_toUInt8, toNat_word]
  omega

theorem word_msb (lsb msb : UInt8) : (word lsb msb >>> 8).toUInt8 = msb := by
  have hl := lsb.toNat_lt
  have hm := msb.toNat_lt
  apply UInt8.toNat_inj.mp
  rw [UInt16.toNat_toUInt8, UInt16.toNat_shiftRight, toNat_word, Nat.shiftRight_eq_div_pow]
  change (lsb.toNat + 256 * msb.toNat) / 2 ^ 8 % 2 ^ 8 = msb.toNat
  omega

/-! ## The encoder -/

/-- The octets of a frame, before stuffing. -/
def frameOctets (src dst : UInt8) (payload : Bytes) : Bytes :=
  src :: dst :: UInt8.ofNat payload.length :: UInt8.ofNat (payload.length >>> 8) ::
    (payload ++ [(crc16 payload).toUInt8, (crc16 payload >>> 8).toUInt8])

/-- The length octets of a frame are those of its length as a 16-bit number. -/
theorem frameOctets_eq (src dst : UInt8) {payload : Bytes} {len : UInt16}
    (h : payload.length = len.toNat) :
    frameOctets src dst payload = src :: dst :: len.toUInt8 :: (len >>> 8).toUInt8 ::
      (payload ++ [(crc16 payload).toUInt8, (crc16 payload >>> 8).toUInt8]) := by
  have hmsb : UInt8.ofNat (len.toNat >>> 8) = (len >>> 8).toUInt8 := by
    apply UInt8.toNat_inj.mp
    rw [UInt8.toNat_ofNat', UInt16.toNat_toUInt8, UInt16.toNat_shiftRight]
    rfl
  rw [frameOctets, h, hmsb]
  rfl

/-- The bytes of a frame on the wire. -/
def wire (src dst : UInt8) (payload : Bytes) : Bytes :=
  flag :: stuffing.stuff (frameOctets src dst payload)

theorem putStuffed_eq (outCap : Nat) (byte : UInt8) (out : Bytes) :
    putStuffed outCap byte out =
      if out.length + (stuffing.stuffOne byte).length ≤ outCap then
        .ok (out ++ stuffing.stuffOne byte)
      else .error out := by
  unfold putStuffed Stuffing.stuffOne
  by_cases special : byte = flag ∨ byte = esc
  · have special' : byte = stuffing.flag ∨ byte = stuffing.esc := special
    rw [if_pos special, if_pos special']
    by_cases full : out.length + 2 > outCap
    · rw [if_pos full, if_neg (by simp; omega)]
    · rw [if_neg full, if_pos (by simp; omega)]
      rfl
  · have special' : ¬ (byte = stuffing.flag ∨ byte = stuffing.esc) := special
    rw [if_neg special, if_neg special']
    by_cases full : out.length + 1 > outCap
    · rw [if_pos full, if_neg (by simp; omega)]
    · rw [if_neg full, if_pos (by simp; omega)]

theorem putStuffed_ok {outCap : Nat} {byte : UInt8} {out res : Bytes}
    (h : putStuffed outCap byte out = .ok res) : res = out ++ stuffing.stuffOne byte := by
  rw [putStuffed_eq] at h
  split at h
  · cases h; rfl
  · cases h

theorem putPayload_ok {outCap : Nat} {payload : Bytes} {crc crc' : UInt16} {out res : Bytes}
    (h : putPayload outCap payload crc out = .ok (crc', res)) :
    crc' = payload.foldl crc16Update crc ∧ res = out ++ stuffing.stuff payload := by
  induction payload generalizing crc out with
  | nil => cases h; simp
  | cons byte payload ih =>
    unfold putPayload at h
    cases hp : putStuffed outCap byte out with
    | error e => rw [hp] at h; cases h
    | ok out' =>
      rw [hp] at h
      obtain ⟨rfl, rfl⟩ := ih h
      rw [putStuffed_ok hp]
      simp

theorem bind_ok {ε β γ : Type} {x : Except ε β} {f : β → Except ε γ} {c : γ}
    (h : (x >>= f) = .ok c) : ∃ b, x = .ok b ∧ f b = .ok c := by
  cases x with
  | error e => cases h
  | ok b => exact ⟨b, rfl, h⟩

theorem putFrame_ok {outCap : Nat} {src dst : UInt8} {payload res : Bytes}
    (h : putFrame outCap src dst payload = .ok res) : res = wire src dst payload := by
  unfold putFrame at h
  split at h
  · cases h
  · obtain ⟨o1, h1, h⟩ := bind_ok h
    obtain ⟨o2, h2, h⟩ := bind_ok h
    obtain ⟨o3, h3, h⟩ := bind_ok h
    obtain ⟨o4, h4, h⟩ := bind_ok h
    obtain ⟨⟨crc, o5⟩, h5, h⟩ := bind_ok h
    obtain ⟨hcrc, ho5⟩ := putPayload_ok h5
    change (putStuffed outCap crc.toUInt8 o5 >>= putStuffed outCap (crc >>> 8).toUInt8) =
      .ok res at h
    obtain ⟨o6, h6, h⟩ := bind_ok h
    rw [putStuffed_ok h, putStuffed_ok h6, ho5, putStuffed_ok h4, putStuffed_ok h3,
      putStuffed_ok h2, putStuffed_ok h1, hcrc]
    simp [wire, frameOctets, crc16]

/-- A successful call writes the frame's wire bytes and nothing else. -/
theorem frameEncode_bytes {outCap : Nat} {src dst : UInt8} {payload : Bytes}
    (h : (frameEncode outCap src dst payload).1 ≠ 0) :
    (frameEncode outCap src dst payload).2 = wire src dst payload := by
  unfold frameEncode at h ⊢
  cases hp : putFrame outCap src dst payload with
  | error out => rw [hp] at h; exact absurd rfl h
  | ok out => exact putFrame_ok hp

theorem putStuffed_of_le {outCap : Nat} {byte : UInt8} {out : Bytes}
    (h : (out ++ stuffing.stuffOne byte).length ≤ outCap) :
    putStuffed outCap byte out = .ok (out ++ stuffing.stuffOne byte) := by
  rw [List.length_append] at h
  rw [putStuffed_eq, if_pos h]

/-- The payload loop goes through when there is room for all of it. -/
theorem putPayload_of_le {outCap : Nat} {payload : Bytes} (crc : UInt16) {out : Bytes}
    (h : (out ++ stuffing.stuff payload).length ≤ outCap) :
    putPayload outCap payload crc out =
      .ok (payload.foldl crc16Update crc, out ++ stuffing.stuff payload) := by
  induction payload generalizing crc out with
  | nil => simp [putPayload]
  | cons byte payload ih =>
    rw [Stuffing.stuff_cons, ← List.append_assoc] at h ⊢
    have hput : putStuffed outCap byte out = .ok (out ++ stuffing.stuffOne byte) := by
      apply putStuffed_of_le
      rw [List.length_append] at h
      omega
    rw [putPayload, hput]
    exact ih (crc16Update crc byte) h

theorem putFrame_of_le {outCap : Nat} {src dst : UInt8} {payload : Bytes}
    (h : (wire src dst payload).length ≤ outCap) :
    putFrame outCap src dst payload = .ok (wire src dst payload) := by
  have hwire : wire src dst payload =
      [flag] ++ stuffing.stuffOne src ++ stuffing.stuffOne dst ++
        stuffing.stuffOne (UInt8.ofNat payload.length) ++
        stuffing.stuffOne (UInt8.ofNat (payload.length >>> 8)) ++ stuffing.stuff payload ++
        stuffing.stuffOne (crc16 payload).toUInt8 ++
        stuffing.stuffOne (crc16 payload >>> 8).toUInt8 := by
    simp [wire, frameOctets]
  rw [hwire] at h ⊢
  have shorter {xs ys : Bytes} (h : (xs ++ ys).length ≤ outCap) : xs.length ≤ outCap := by
    rw [List.length_append] at h
    omega
  have hcrc := shorter h
  have hbody := shorter hcrc
  have hmsb := shorter hbody
  have hlsb := shorter hmsb
  have hdst := shorter hlsb
  have hsrc := shorter hdst
  have hcap : ¬ outCap < 1 := Nat.not_lt.mpr (shorter hsrc)
  simp only [putFrame, if_neg hcap, putStuffed_of_le hsrc, putStuffed_of_le hdst,
    putStuffed_of_le hlsb, putStuffed_of_le hmsb, putPayload_of_le 0 hbody, bind, Except.bind]
  rw [← crc16, putStuffed_of_le hcrc]
  exact putStuffed_of_le h

/-- With room for the wire bytes the call succeeds. -/
theorem frameEncode_of_le {outCap : Nat} {src dst : UInt8} {payload : Bytes}
    (h : (wire src dst payload).length ≤ outCap) :
    frameEncode outCap src dst payload =
      ((wire src dst payload).length, wire src dst payload) := by
  rw [frameEncode, putFrame_of_le h]

theorem length_wire_le (src dst : UInt8) (payload : Bytes) :
    (wire src dst payload).length ≤ maxEncodedLen payload.length := by
  have hstuff := stuffing.length_stuff_le (frameOctets src dst payload)
  have hoctets : (frameOctets src dst payload).length = 4 + payload.length + 2 := by
    simp [frameOctets]
    omega
  rw [hoctets] at hstuff
  rw [wire, List.length_cons, maxEncodedLen, Nat.add_comm 1]
  exact Nat.succ_le_succ hstuff

/-! ## The judge of the frame grammar -/

/-- Source, length and payload of a complete frame for address `a` whose payload fits. -/
def judge (a : UInt8) (cap : Nat) : Bytes → Verdict (UInt8 × UInt16 × Bytes)
  | src :: dst :: rest =>
    if dst ≠ a then .reject
    else
      match rest with
      | lsb :: msb :: body =>
        let len := word lsb msb
        if len.toNat > cap then .reject
        else
          match body.drop len.toNat with
          | [lo, hi] =>
            if word lo hi ≠ crc16 (body.take len.toNat) then .reject
            else .accept (src, len, body.take len.toNat)
          | _ => .more
      | _ => .more
  | _ => .more

variable {a : UInt8} {cap : Nat}

/-- What the judge says once the header is complete. -/
theorem judge_body {src lsb msb : UInt8} {body : Bytes} (fits : (word lsb msb).toNat ≤ cap) :
    judge a cap (src :: a :: lsb :: msb :: body) =
      match body.drop (word lsb msb).toNat with
      | [lo, hi] =>
        if word lo hi ≠ crc16 (body.take (word lsb msb).toNat) then .reject
        else .accept (src, word lsb msb, body.take (word lsb msb).toNat)
      | _ => .more := by
  simp [judge, Nat.not_lt.mpr fits]

theorem judge_short {src lsb msb : UInt8} {body : Bytes} (fits : (word lsb msb).toNat ≤ cap)
    (short : body.length < (word lsb msb).toNat + 2) :
    judge a cap (src :: a :: lsb :: msb :: body) = .more := by
  rw [judge_body fits]
  have len : (body.drop (word lsb msb).toNat).length < 2 := by simp; omega
  match h : body.drop (word lsb msb).toNat, len with
  | [], _ => rfl
  | [x], _ => rfl

/-- Only a frame for us whose payload fits is accepted, with its own source, length and payload. -/
theorem octets_of_accept {o : Bytes} {src : UInt8} {len : UInt16} {payload : Bytes}
    (h : judge a cap o = .accept (src, len, payload)) :
    payload.length = len.toNat ∧ len.toNat ≤ cap ∧ o = frameOctets src a payload := by
  match o with
  | [] | [_] => simp [judge] at h
  | [_, dst] | [_, dst, _] =>
    by_cases hd : dst = a <;> simp [judge, hd] at h
  | src' :: dst :: lsb :: msb :: body =>
    by_cases hd : dst = a
    · subst hd
      by_cases fits : (word lsb msb).toNat ≤ cap
      · rw [judge_body fits] at h
        have hsplit := List.take_append_drop (word lsb msb).toNat body
        match hb : body.drop (word lsb msb).toNat with
        | [] | [_] | _ :: _ :: _ :: _ => simp [hb] at h
        | [lo, hi] =>
          rw [hb] at h hsplit
          simp only at h
          split at h
          · cases h
          · rename_i hcrc
            cases h
            have hlen : (body.take (word lsb msb).toNat).length = (word lsb msb).toNat := by
              have := congrArg List.length hb
              simp only [List.length_drop, List.length_cons, List.length_nil] at this
              rw [List.length_take]
              omega
            refine ⟨hlen, fits, ?_⟩
            simp only [frameOctets_eq _ _ hlen, ← not_ne_iff.mp hcrc, word_lsb, word_msb]
            rw [hsplit]
      · simp [judge, Nat.not_le.mp fits] at h
    · simp [judge, hd] at h

/-- Only a frame of exactly the declared length is accepted. -/
theorem length_of_accept {o : Bytes} {src : UInt8} {len : UInt16} {payload : Bytes}
    (h : judge a cap o = .accept (src, len, payload)) : o.length = len.toNat + 6 := by
  obtain ⟨hlen, -, rfl⟩ := octets_of_accept h
  simp [frameOctets, hlen]

/-- Every proper prefix of octets of the declared length asks for more. -/
theorem judge_proper {src lsb msb : UInt8} {body : Bytes} (fits : (word lsb msb).toNat ≤ cap)
    (len : body.length = (word lsb msb).toNat + 2) {ys : Bytes}
    (hp : ys <+: src :: a :: lsb :: msb :: body) (hne : ys ≠ src :: a :: lsb :: msb :: body) :
    judge a cap ys = .more := by
  obtain ⟨zs, hz⟩ := hp
  match ys with
  | [] | [_] => simp [judge]
  | [x, y] | [x, y, z] =>
    simp only [List.cons_append, List.cons.injEq] at hz
    simp [judge, hz.2.1]
  | x :: y :: l :: m :: front =>
    simp only [List.cons_append, List.cons.injEq] at hz
    obtain ⟨rfl, rfl, rfl, rfl, rfl⟩ := hz
    refine judge_short fits ?_
    have : zs ≠ [] := by
      rintro rfl
      exact hne (by rw [List.append_nil])
    have := List.length_pos_of_ne_nil this
    rw [List.length_append] at len
    omega

/-- Every proper prefix of a frame for us asks for more. -/
theorem judge_prefix {src : UInt8} {payload : Bytes} (short : payload.length ≤ 65535)
    (fits : payload.length ≤ cap) {ys : Bytes} (hp : ys <+: frameOctets src a payload)
    (hne : ys ≠ frameOctets src a payload) : judge a cap ys = .more := by
  have len := toNat_word_ofNat short
  exact judge_proper (by omega) (by simp [len]) hp hne

/-- The whole frame is accepted with its source, length and payload. -/
theorem judge_frame (src : UInt8) {payload : Bytes} (short : payload.length ≤ 65535)
    (fits : payload.length ≤ cap) :
    ∃ len : UInt16, len.toNat = payload.length ∧
      judge a cap (frameOctets src a payload) = .accept (src, len, payload) := by
  have len := toNat_word_ofNat short
  refine ⟨_, len, ?_⟩
  unfold frameOctets
  rw [judge_body (by omega)]
  simp [len, word_crc]

theorem judge_other {src dst : UInt8} (h : dst ≠ a) : judge a cap [src, dst] = .reject := by
  simp [judge, h]

theorem judge_long {src lsb msb : UInt8} (h : cap < (word lsb msb).toNat) :
    judge a cap [src, a, lsb, msb] = .reject := by
  simp [judge, h]

/-! ## The reader refines the receiver -/

def eventOf : Verdict (UInt8 × UInt16 × Bytes) → Reader.Event
  | .more => .inProgress
  | .accept (src, len, payload) => .frameReady src len payload
  | .reject => .error

/-- The reader's position after the header: in the payload, or in the CRC. -/
def InBody (r : Reader) (body : Bytes) : Prop :=
  (r.state = .readPayload ∧ body.length < r.len.toNat ∧ r.pos.toNat = body.length ∧
    r.payloadBuf.take body.length = body ∧ r.crc = crc16 body) ∨
  (r.payloadBuf.take r.len.toNat = body.take r.len.toNat ∧
    r.crc = crc16 (body.take r.len.toNat) ∧
    ((r.state = .readCrcLsb ∧ body.length = r.len.toNat) ∨
      ∃ lo, r.state = .readCrcMsb ∧ body.length = r.len.toNat + 1 ∧
        body.drop r.len.toNat = [lo] ∧ r.rxCrc = lo.toUInt16))

/-- The reader has collected exactly these octets since the last flag. -/
def Collects (r : Reader) : Bytes → Prop
  | [] => r.state = .readSrc
  | [src] => r.state = .readDst ∧ r.srcAddr = src
  | [src, dst] => r.state = .readLenLsb ∧ r.srcAddr = src ∧ dst = r.localAddr
  | [src, dst, lsb] =>
    r.state = .readLenMsb ∧ r.srcAddr = src ∧ dst = r.localAddr ∧ r.len = lsb.toUInt16
  | src :: dst :: lsb :: msb :: body =>
    r.srcAddr = src ∧ dst = r.localAddr ∧ r.len = word lsb msb ∧ r.len.toNat ≤ r.payloadCap ∧
      InBody r body

/-- The reader's configuration: its address, and storage of its capacity. -/
structure Config (a : UInt8) (cap : Nat) (r : Reader) : Prop where
  addr : r.localAddr = a
  room : r.payloadCap = cap
  size : r.payloadBuf.length = cap

/-- A reader and the receiver state it stands for. -/
structure Tracks (a : UInt8) (cap : Nat) (r : Reader) (q : Option (OpenFrame UInt8)) : Prop where
  config : Config a cap r
  hunting : q = none → r.state = .waitFlag ∧ r.haveEscape = false
  collecting : ∀ f, q = some f → r.haveEscape = f.escaped ∧ Collects r f.octets

theorem tracks_init (a : UInt8) (buf : Bytes) :
    Tracks a buf.length (Reader.init a buf buf.length) none where
  config := ⟨rfl, rfl, rfl⟩
  hunting _ := ⟨rfl, rfl⟩
  collecting _ h := by cases h

/-- A reader in the middle of a frame is not waiting for a flag. -/
theorem Collects.state_ne {r : Reader} {o : Bytes} (h : Collects r o) : r.state ≠ .waitFlag := by
  match o, h with
  | [], h => simp [show r.state = .readSrc from h]
  | [_], h | [_, _], h | [_, _, _], h => simp [h.1]
  | _ :: _ :: _ :: _ :: _, ⟨_, _, _, _, h⟩ =>
    rcases h with h | ⟨_, _, h | ⟨_, h, _⟩⟩ <;> simp [h]

/-- What `take` must achieve on an octet for the receiver's `conclude`. -/
def Concludes (a : UInt8) (cap : Nat) (now : Reader × FeedResult) (o : Bytes) : Prop :=
  Tracks a cap now.1 (Stuffing.conclude (judge a cap) o).1 ∧
    now.1.event now.2 = eventOf (Stuffing.conclude (judge a cap) o).2

theorem concludes_more {now : Reader × FeedResult} {o : Bytes} (h : judge a cap o = .more)
    (cfg : Config a cap now.1) (esc : now.1.haveEscape = false) (col : Collects now.1 o)
    (res : now.2 = .inProgress) : Concludes a cap now o := by
  have hc : Stuffing.conclude (judge a cap) o = (some ⟨o, false⟩, .more) := by
    simp [Stuffing.conclude, h]
  refine ⟨⟨cfg, ?_, ?_⟩, ?_⟩
  · simp [hc]
  · rintro f hf
    rw [hc] at hf
    cases hf
    exact ⟨esc, col⟩
  · rw [hc, res]
    rfl

theorem concludes_closed {now : Reader × FeedResult} {o : Bytes}
    (h : judge a cap o ≠ .more) (cfg : Config a cap now.1) (wait : now.1.state = .waitFlag)
    (esc : now.1.haveEscape = false) (res : now.1.event now.2 = eventOf (judge a cap o)) :
    Concludes a cap now o := by
  have hc : Stuffing.conclude (judge a cap) o = (none, judge a cap o) := by
    unfold Stuffing.conclude
    cases hv : judge a cap o <;> simp_all
  exact ⟨⟨cfg, fun _ => ⟨wait, esc⟩, by simp [hc]⟩, by rw [hc, res]⟩

theorem crc16_append (xs : Bytes) (x : UInt8) : crc16 (xs ++ [x]) = crc16Update (crc16 xs) x := by
  simp [crc16]

/-- A payload octet is stored at the write position. -/
theorem take_set_append {buf body : Bytes} {b : UInt8} (h : buf.take body.length = body)
    (room : body.length < buf.length) :
    (buf.set body.length b).take (body.length + 1) = body ++ [b] := by
  rw [List.take_add_one, List.take_set_of_le (Nat.le_refl _), h]
  simp [room]

/-- A header octet, up to the low length octet. -/
theorem take_header {r : Reader} (cfg : Config a cap r) (esc : r.haveEscape = false) {o : Bytes}
    (col : Collects r o) (hlen : o.length < 3) (b : UInt8) :
    Concludes a cap (r.take b) (o ++ [b]) := by
  match o, col, hlen with
  | [], col, _ =>
    have hs : r.state = .readSrc := col
    refine concludes_more (by simp [judge]) ?_ ?_ ?_ ?_ <;> simp only [Reader.take, hs]
    · exact ⟨cfg.addr, cfg.room, cfg.size⟩
    · exact esc
    · exact ⟨rfl, rfl⟩
  | [src], ⟨hs, hsrc⟩, _ =>
    by_cases hb : b = a
    · have hb' : ¬ b ≠ r.localAddr := by simp [hb, cfg.addr]
      refine concludes_more (by simp [judge, hb]) ?_ ?_ ?_ ?_ <;>
        simp only [Reader.take, hs, if_neg hb']
      · exact ⟨cfg.addr, cfg.room, cfg.size⟩
      · exact esc
      · exact ⟨rfl, hsrc, by rw [hb, cfg.addr]⟩
    · have hb' : b ≠ r.localAddr := by rwa [cfg.addr]
      have hj : judge a cap ([src] ++ [b]) = .reject := judge_other hb
      refine concludes_closed (by rw [hj]; simp) ?_ ?_ ?_ ?_ <;>
        simp only [Reader.take, hs, if_pos hb', Reader.resetToWait]
      · exact ⟨cfg.addr, cfg.room, cfg.size⟩
      · rw [hj]; rfl
  | [src, dst], ⟨hs, hsrc, hd⟩, _ =>
    have hda : dst = a := by rw [hd, cfg.addr]
    refine concludes_more (by simp [judge, hda]) ?_ ?_ ?_ ?_ <;> simp only [Reader.take, hs]
    · exact ⟨cfg.addr, cfg.room, cfg.size⟩
    · exact esc
    · exact ⟨rfl, hsrc, hd, rfl⟩

/-- The high length octet: the declared length is known and checked against the capacity. -/
theorem take_length {r : Reader} (cfg : Config a cap r) (esc : r.haveEscape = false)
    {src dst lsb : UInt8} (col : Collects r [src, dst, lsb]) (b : UInt8) :
    Concludes a cap (r.take b) ([src, dst, lsb] ++ [b]) := by
  obtain ⟨hs, hsrc, hd, hl⟩ := col
  have hda : dst = a := by rw [hd, cfg.addr]
  have hw : r.len ||| b.toUInt16 <<< 8 = word lsb b := by rw [hl]; rfl
  subst hda
  by_cases fits : (word lsb b).toNat ≤ cap
  · have hroom : ¬ (word lsb b).toNat > r.payloadCap := by rw [cfg.room]; omega
    refine concludes_more (judge_short fits (by simp)) ?_ ?_ ?_ ?_ <;>
      simp only [Reader.take, hs, hw, if_neg hroom]
    · exact ⟨cfg.addr, cfg.room, cfg.size⟩
    · exact esc
    · refine ⟨hsrc, hd, rfl, by simpa [cfg.room] using fits, ?_⟩
      by_cases zero : word lsb b = 0
      · exact Or.inr ⟨by simp [zero], by simp [crc16], Or.inl ⟨by simp [zero], by simp [zero]⟩⟩
      · have pos : 0 < (word lsb b).toNat := by
          refine Nat.pos_of_ne_zero fun h => zero ?_
          exact UInt16.toNat_inj.mp h
        exact Or.inl ⟨by simp [zero], by simpa using pos, rfl, by simp, rfl⟩
  · have hroom : (word lsb b).toNat > r.payloadCap := by rw [cfg.room]; omega
    have hj : judge dst cap ([src, dst, lsb] ++ [b]) = .reject := judge_long (by omega)
    refine concludes_closed (by rw [hj]; simp) ?_ ?_ ?_ ?_ <;>
      simp only [Reader.take, hs, hw, if_pos hroom, Reader.resetToWait]
    · exact ⟨cfg.addr, cfg.room, cfg.size⟩
    · rw [hj]; rfl

/-- A payload octet is stored, added to the CRC, and counted. -/
theorem take_payload {r : Reader} (cfg : Config a cap r) (esc : r.haveEscape = false)
    {src dst lsb msb : UInt8} {body : Bytes}
    (head : r.srcAddr = src ∧ dst = r.localAddr ∧ r.len = word lsb msb ∧
      r.len.toNat ≤ r.payloadCap)
    (pay : r.state = .readPayload ∧ body.length < r.len.toNat ∧ r.pos.toNat = body.length ∧
      r.payloadBuf.take body.length = body ∧ r.crc = crc16 body) (b : UInt8) :
    Concludes a cap (r.take b) (src :: dst :: lsb :: msb :: (body ++ [b])) := by
  obtain ⟨hsrc, hd, hl, hle⟩ := head
  obtain ⟨hs, hlen, hpos, hbuf, hcrc⟩ := pay
  have hda : dst = a := by rw [hd, cfg.addr]
  have hcap : r.len.toNat ≤ cap := by rw [← cfg.room]; exact hle
  have hnext : (r.pos + 1).toNat = body.length + 1 := by
    have := r.len.toNat_lt
    rw [UInt16.toNat_add, hpos]
    show (body.length + 1) % 65536 = _
    omega
  have stored : (r.payloadBuf.set r.pos.toNat b).take (body.length + 1) = body ++ [b] := by
    rw [hpos]
    exact take_set_append hbuf (by rw [cfg.size]; omega)
  have hcrc' : crc16Update r.crc b = crc16 (body ++ [b]) := by rw [crc16_append, hcrc]
  have hj : judge a cap (src :: dst :: lsb :: msb :: (body ++ [b])) = .more := by
    rw [hda]
    refine judge_short (by rw [← hl]; exact hcap) ?_
    rw [← hl]
    simp
    omega
  have hcfg : ∀ st, Config a cap { r with
      payloadBuf := r.payloadBuf.set r.pos.toNat b
      pos := r.pos + 1
      crc := crc16Update r.crc b
      state := st } := fun st => ⟨cfg.addr, cfg.room, by simpa using cfg.size⟩
  by_cases last : r.pos + 1 = r.len
  · have hfull : r.len.toNat = body.length + 1 := by rw [← last, hnext]
    refine concludes_more hj ?_ ?_ ?_ ?_ <;> simp only [Reader.take, hs, if_pos last]
    · exact hcfg _
    · exact esc
    · refine ⟨hsrc, hd, hl, hle, Or.inr ⟨?_, ?_, Or.inl ⟨rfl, by simp [hfull]⟩⟩⟩
      · rw [hfull, stored, List.take_of_length_le (by simp)]
      · rw [hfull, hcrc', List.take_of_length_le (by simp)]
  · have hmore : body.length + 1 < r.len.toNat := by
      have : (r.pos + 1).toNat ≠ r.len.toNat := fun e => last (UInt16.toNat_inj.mp e)
      omega
    refine concludes_more hj ?_ ?_ ?_ ?_ <;> simp only [Reader.take, hs, if_neg last]
    · exact hcfg _
    · exact esc
    · refine ⟨hsrc, hd, hl, hle, Or.inl ⟨rfl, by simpa using hmore, by simpa using hnext, ?_, ?_⟩⟩
      · simpa using stored
      · exact hcrc'

/-- The low CRC octet is kept for the comparison. -/
theorem take_crcLsb {r : Reader} (cfg : Config a cap r) (esc : r.haveEscape = false)
    {src dst lsb msb : UInt8} {body : Bytes}
    (head : r.srcAddr = src ∧ dst = r.localAddr ∧ r.len = word lsb msb ∧
      r.len.toNat ≤ r.payloadCap)
    (buf : r.payloadBuf.take r.len.toNat = body.take r.len.toNat)
    (crc : r.crc = crc16 (body.take r.len.toNat))
    (pos : r.state = .readCrcLsb ∧ body.length = r.len.toNat) (b : UInt8) :
    Concludes a cap (r.take b) (src :: dst :: lsb :: msb :: (body ++ [b])) := by
  obtain ⟨hsrc, hd, hl, hle⟩ := head
  obtain ⟨hs, hlen⟩ := pos
  have hda : dst = a := by rw [hd, cfg.addr]
  have hj : judge a cap (src :: dst :: lsb :: msb :: (body ++ [b])) = .more := by
    rw [hda]
    refine judge_short (by rw [← hl, ← cfg.room]; exact hle) ?_
    rw [← hl]
    simp
    omega
  have htake : (body ++ [b]).take r.len.toNat = body.take r.len.toNat := by
    rw [List.take_append_of_le_length (by omega)]
  refine concludes_more hj ?_ ?_ ?_ ?_ <;> simp only [Reader.take, hs]
  · exact ⟨cfg.addr, cfg.room, cfg.size⟩
  · exact esc
  · refine ⟨hsrc, hd, hl, hle, Or.inr ⟨?_, ?_, Or.inr ⟨b, rfl, by simp [hlen], ?_, rfl⟩⟩⟩
    · rw [htake]; exact buf
    · rw [htake]; exact crc
    · rw [← hlen]; simp

/-- The high CRC octet decides the frame. -/
theorem take_crcMsb {r : Reader} (cfg : Config a cap r)
    {src dst lsb msb : UInt8} {body : Bytes}
    (head : r.srcAddr = src ∧ dst = r.localAddr ∧ r.len = word lsb msb ∧
      r.len.toNat ≤ r.payloadCap)
    (buf : r.payloadBuf.take r.len.toNat = body.take r.len.toNat)
    (crc : r.crc = crc16 (body.take r.len.toNat)) {lo : UInt8}
    (pos : r.state = .readCrcMsb ∧ body.length = r.len.toNat + 1 ∧
      body.drop r.len.toNat = [lo] ∧ r.rxCrc = lo.toUInt16) (b : UInt8) :
    Concludes a cap (r.take b) (src :: dst :: lsb :: msb :: (body ++ [b])) := by
  obtain ⟨hsrc, hd, hl, hle⟩ := head
  obtain ⟨hs, hlen, hlo, hrx⟩ := pos
  have hda : dst = a := by rw [hd, cfg.addr]
  have hw : r.rxCrc ||| b.toUInt16 <<< 8 = word lo b := by rw [hrx]; rfl
  have hdrop : (body ++ [b]).drop r.len.toNat = [lo, b] := by
    rw [List.drop_append_of_le_length (by omega), hlo]
    rfl
  have htake : (body ++ [b]).take r.len.toNat = body.take r.len.toNat := by
    rw [List.take_append_of_le_length (by omega)]
  have hj : judge a cap (src :: dst :: lsb :: msb :: (body ++ [b])) =
      if word lo b ≠ r.crc then .reject
      else .accept (src, r.len, r.payloadBuf.take r.len.toNat) := by
    rw [hda, judge_body (by rw [← hl, ← cfg.room]; exact hle), ← hl, hdrop, htake, buf, crc]
  have hcfg : ∀ rx, Config a cap (Reader.resetToWait { r with rxCrc := rx }) := fun rx =>
    ⟨cfg.addr, cfg.room, cfg.size⟩
  by_cases bad : word lo b ≠ r.crc
  · rw [if_pos bad] at hj
    refine concludes_closed (by rw [hj]; simp) ?_ ?_ ?_ ?_ <;>
      simp only [Reader.take, hs, hw, if_pos bad]
    · exact hcfg _
    · rfl
    · rfl
    · rw [hj]; rfl
  · rw [if_neg bad] at hj
    refine concludes_closed (by rw [hj]; simp) ?_ ?_ ?_ ?_ <;>
      simp only [Reader.take, hs, hw, if_neg bad]
    · exact hcfg _
    · rfl
    · rfl
    · rw [hj, ← hsrc]; rfl

theorem take_concludes {r : Reader} (cfg : Config a cap r) (esc : r.haveEscape = false)
    {o : Bytes} (col : Collects r o) (b : UInt8) : Concludes a cap (r.take b) (o ++ [b]) := by
  match o, col with
  | [], col | [_], col | [_, _], col => exact take_header cfg esc col (by simp) b
  | [_, _, _], col => exact take_length cfg esc col b
  | _ :: _ :: _ :: _ :: _, ⟨hsrc, hd, hl, hle, body⟩ =>
    have head := And.intro hsrc (And.intro hd (And.intro hl hle))
    rcases body with pay | ⟨buf, crc, pos | ⟨lo, pos⟩⟩
    · exact take_payload cfg esc head pay b
    · exact take_crcLsb cfg esc head buf crc pos b
    · exact take_crcMsb cfg head buf crc pos b

/-- Reading state, configuration and octets ignore the escape flag. -/
theorem Collects.with_escape {r : Reader} {o : Bytes} (h : Collects r o) (e : Bool) :
    Collects { r with haveEscape := e } o := by
  match o, h with
  | [], h | [_], h | [_, _], h | [_, _, _], h | _ :: _ :: _ :: _ :: _, h => exact h

/-- Whatever a reader held, it stands at the start of a frame once its state says so. -/
theorem Config.tracks_open {r : Reader} (cfg : Config a cap r) :
    Tracks a cap { r with state := .readSrc, haveEscape := false } (some ⟨[], false⟩) where
  config := ⟨cfg.addr, cfg.room, cfg.size⟩
  hunting h := by cases h
  collecting f hf := by
    cases hf
    exact ⟨rfl, rfl⟩

/-- One call of the reader is one step of the receiver. -/
theorem feed_tracks {r : Reader} {q : Option (OpenFrame UInt8)} (h : Tracks a cap r q)
    (b : UInt8) :
    Tracks a cap (r.feed b).1 (stuffing.receive (judge a cap) q b).1 ∧
      (r.feed b).1.event (r.feed b).2 = eventOf (stuffing.receive (judge a cap) q b).2 := by
  obtain ⟨cfg, hunt, coll⟩ := h
  match q with
  | none =>
    obtain ⟨hs, he⟩ := hunt rfl
    by_cases hb : b = flag
    · simp only [Reader.feed, Stuffing.receive, he, hb]
      exact ⟨cfg.tracks_open, rfl⟩
    · have hb' : ¬ b = stuffing.flag := hb
      simp only [Reader.feed, Stuffing.receive, hb, and_false, if_false, if_pos hs, if_neg hb']
      exact ⟨⟨cfg, fun _ => ⟨hs, he⟩, by simp⟩, rfl⟩
  | some ⟨o, true⟩ =>
    obtain ⟨he, col⟩ := coll _ rfl
    have he' : r.haveEscape = true := he
    have step := take_concludes (r := { r with haveEscape := false })
      ⟨cfg.addr, cfg.room, cfg.size⟩ rfl (col.with_escape false) (b ^^^ xor)
    have hf : r.feed b = Reader.take { r with haveEscape := false } (b ^^^ xor) := by
      simp [Reader.feed, Reader.unstuff, he', col.state_ne]
    rw [hf]
    exact step
  | some ⟨o, false⟩ =>
    obtain ⟨he, col⟩ := coll _ rfl
    have he' : r.haveEscape = false := he
    by_cases hb : b = flag
    · simp only [Reader.feed, Stuffing.receive, he', hb]
      exact ⟨cfg.tracks_open, rfl⟩
    · have hb' : ¬ b = stuffing.flag := hb
      by_cases hesc : b = esc
      · have hesc' : b = stuffing.esc := hesc
        have hf : r.feed b = ({ r with haveEscape := true }, .inProgress) := by
          simp [Reader.feed, Reader.unstuff, he', col.state_ne, hesc, show esc ≠ flag by decide]
        rw [hf]
        simp only [Stuffing.receive, if_neg hb', if_pos hesc']
        refine ⟨⟨⟨cfg.addr, cfg.room, cfg.size⟩, by simp, ?_⟩, rfl⟩
        rintro f ⟨rfl⟩
        exact ⟨rfl, col.with_escape true⟩
      · have hesc' : ¬ b = stuffing.esc := hesc
        have hf : r.feed b = r.take b := by
          simp [Reader.feed, Reader.unstuff, he', col.state_ne, hb, hesc]
        rw [hf]
        simp only [Stuffing.receive, if_neg hb', if_neg hesc']
        exact take_concludes cfg he' col b

/-- The reader reports exactly the receiver's verdicts. -/
theorem feedAll_tracks {r : Reader} {q : Option (OpenFrame UInt8)} (h : Tracks a cap r q)
    (bs : Bytes) :
    Tracks a cap (r.feedAll bs).1 (stuffing.receiveAll (judge a cap) q bs).1 ∧
      (r.feedAll bs).2 = (stuffing.receiveAll (judge a cap) q bs).2.map eventOf := by
  induction bs generalizing r q with
  | nil => exact ⟨h, rfl⟩
  | cons b bs ih =>
    obtain ⟨now, ev⟩ := feed_tracks h b
    obtain ⟨rest, evs⟩ := ih now
    exact ⟨rest, by simp only [Reader.feedAll, Stuffing.receiveAll_cons, List.map_cons, ev, evs]⟩

end RtosXrce.Xrce.Serial
