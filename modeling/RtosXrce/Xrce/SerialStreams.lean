import RtosXrce.Xrce.SerialFrames
import Mathlib.Data.List.Forall2

/-!
# What a reader hears on a serial line

Whole streams of frames and flag-free noise, and the first frame after an arbitrary history. The
arguments run on the abstract receiver; `feedAll_tracks` carries them to the reader.
-/

namespace RtosXrce.Xrce.Serial

open Library

/-- A frame some sender put on the line with a successful `xrce_serial_frame_encode`. -/
structure SentFrame where
  outCap : Nat
  src : UInt8
  dst : UInt8
  payload : Bytes
  short : payload.length ≤ 65535
  encoded : (frameEncode outCap src dst payload).1 ≠ 0

/-- The bytes the call produced. -/
def SentFrame.bytes (f : SentFrame) : Bytes := (frameEncode f.outCap f.src f.dst f.payload).2

theorem SentFrame.bytes_eq (f : SentFrame) : f.bytes = wire f.src f.dst f.payload :=
  frameEncode_bytes f.encoded

/-- The frame is addressed to `a` and its payload fits a buffer of `cap` bytes. -/
def SentFrame.IsFor (f : SentFrame) (a : UInt8) (cap : Nat) : Prop :=
  f.dst = a ∧ f.payload.length ≤ cap

/-- The event of a frame's last byte. -/
def SentFrame.Ready (f : SentFrame) (e : Reader.Event) : Prop :=
  ∃ len : UInt16, len.toNat = f.payload.length ∧ e = .frameReady f.src len f.payload

/-! ## Frames at the receiver -/

/-- The state of a receiver that does not wait for the second half of an escape pair. -/
def Settled (q : Option (OpenFrame UInt8)) : Prop := ∀ f, q = some f → f.escaped = false

variable {a : UInt8} {cap : Nat} {q : Option (OpenFrame UInt8)}

theorem receiveAll_wire (settled : Settled q) (src dst : UInt8) (payload : Bytes) :
    stuffing.receiveAll (judge a cap) q (wire src dst payload) =
      ((stuffing.receiveAll (judge a cap) (some ⟨[], false⟩)
          (stuffing.stuff (frameOctets src dst payload))).1,
        .more :: (stuffing.receiveAll (judge a cap) (some ⟨[], false⟩)
          (stuffing.stuff (frameOctets src dst payload))).2) := by
  have hf := stuffing.receive_flag (judge a cap) q settled
  rw [show stuffing.flag = flag from rfl] at hf
  rw [wire, Stuffing.receiveAll_cons, hf]

theorem length_wire (src dst : UInt8) (payload : Bytes) :
    (wire src dst payload).length = (stuffing.stuff (frameOctets src dst payload)).length + 1 :=
  rfl

/-- Octets on whose proper beginnings the judge asks for more are in progress up to their last byte,
which decides them. -/
theorem receiveAll_last (settled : Settled q) {octets : Bytes} (ne : octets ≠ [])
    (more : ∀ ys, ys <+: octets → ys ≠ octets → judge a cap ys = .more)
    (decided : judge a cap octets ≠ .more) :
    stuffing.receiveAll (judge a cap) q (flag :: stuffing.stuff octets) =
      (none, List.replicate (stuffing.stuff octets).length .more ++ [judge a cap octets]) := by
  obtain ⟨xs, x, rfl⟩ : ∃ xs x, octets = xs ++ [x] :=
    ⟨_, _, (List.dropLast_append_getLast ne).symm⟩
  have proper : ∀ ys, ys <+: xs → ys ≠ [] → judge a cap ([] ++ ys) = .more := by
    intro ys hys _
    refine more ys (hys.trans (List.prefix_append xs [x])) ?_
    rintro rfl
    have := hys.length_le
    rw [List.length_append, List.length_singleton] at this
    omega
  have run := stuffing.receiveAll_decided (judge a cap) [] xs x [] proper rfl decided
  have pos : 0 < (stuffing.stuff (xs ++ [x])).length := by
    have := stuffing.length_stuffOne_pos x
    rw [Stuffing.stuff_append, Stuffing.stuff_cons, List.length_append, List.length_append]
    omega
  have opened := stuffing.receive_flag (judge a cap) q settled
  rw [show stuffing.flag = flag from rfl] at opened
  rw [Stuffing.receiveAll_cons, opened, run]
  simp only [Stuffing.stuff_nil, List.length_nil, List.replicate_zero, List.nil_append]
  rw [← List.cons_append, ← List.replicate_succ, Nat.sub_add_cancel pos]

/-- A frame for us is in progress up to its last byte, which accepts it. -/
theorem receiveAll_accept (settled : Settled q) (src : UInt8) {payload : Bytes}
    (short : payload.length ≤ 65535) (fits : payload.length ≤ cap) :
    ∃ len : UInt16, len.toNat = payload.length ∧
      stuffing.receiveAll (judge a cap) q (wire src a payload) =
        (none, List.replicate ((wire src a payload).length - 1) .more ++
          [.accept (src, len, payload)]) := by
  obtain ⟨len, hlen, hj⟩ := judge_frame (a := a) src short fits
  refine ⟨len, hlen, ?_⟩
  have run := receiveAll_last settled (by simp [frameOctets])
    (fun _ hys hne => judge_prefix short fits hys hne) (by rw [hj]; simp)
  rw [hj] at run
  exact run

/-- Any other frame is rejected inside its header and its rest ignored. -/
theorem receiveAll_reject (settled : Settled q) (src : UInt8) {dst : UInt8} {payload : Bytes}
    (short : payload.length ≤ 65535) (other : ¬ (dst = a ∧ payload.length ≤ cap)) :
    ∃ i j, i + 1 + j = (wire src dst payload).length ∧
      stuffing.receiveAll (judge a cap) q (wire src dst payload) =
        (none, List.replicate i .more ++ .reject :: List.replicate j .more) := by
  obtain ⟨xs, x, zs, hx, more, hj⟩ : ∃ xs x zs, frameOctets src dst payload = xs ++ x :: zs ∧
      (∀ ys, ys <+: xs → ys ≠ [] → judge a cap ([] ++ ys) = .more) ∧
      judge a cap ([] ++ xs ++ [x]) = .reject := by
    by_cases hd : dst = a
    · subst hd
      refine ⟨[src, dst, UInt8.ofNat payload.length], _, _, rfl, ?_, judge_long ?_⟩
      · intro ys hys _
        have := hys.length_le
        have second : ∀ {x y zs}, x :: y :: zs <+: [src, dst, UInt8.ofNat payload.length] →
            y = dst := by
          intro x y zs h
          simp only [List.cons_prefix_cons] at h
          exact h.2.1
        rcases ys with _ | ⟨_, _ | ⟨_, _ | ⟨_, _ | ⟨_, _⟩⟩⟩⟩
        · simp [judge]
        · simp [judge]
        · simp [judge, second hys]
        · simp [judge, second hys]
        · simp only [List.length_cons, List.length_nil] at this
          omega
      · have := toNat_word_ofNat short
        have long : ¬ payload.length ≤ cap := fun h => other ⟨rfl, h⟩
        omega
    · refine ⟨[src], _, _, rfl, ?_, judge_other hd⟩
      intro ys hys _
      have := hys.length_le
      rcases ys with _ | ⟨_, _ | ⟨_, _⟩⟩
      · simp [judge]
      · simp [judge]
      · simp at this
  have run := stuffing.receiveAll_decided (judge a cap) [] xs x zs more hj (by simp)
  have pos : 0 < (stuffing.stuff (xs ++ [x])).length := by
    have := stuffing.length_stuffOne_pos x
    simp
    omega
  refine ⟨(stuffing.stuff (xs ++ [x])).length, (stuffing.stuff zs).length, ?_, ?_⟩
  · rw [length_wire, hx]
    simp
    omega
  · rw [receiveAll_wire settled, hx, run, ← List.cons_append, ← List.replicate_succ,
      Nat.sub_add_cancel pos]

/-! ## Whole streams -/

/-- A piece of a stream: a frame, or bytes without a flag. -/
inductive Segment where
  | frame (f : SentFrame)
  | noise (bytes : Bytes) (quiet : flag ∉ bytes)

def Segment.bytes : Segment → Bytes
  | .frame f => f.bytes
  | .noise bytes _ => bytes

/-- The events of a segment's bytes: a frame for us is ready on its last byte, any other frame
gives one error, and every other byte is in progress. -/
def Segment.Heard (a : UInt8) (cap : Nat) : Segment → List Reader.Event → Prop
  | .frame f, es =>
    (f.IsFor a cap ∧ ∃ e, f.Ready e ∧
      es = List.replicate (f.bytes.length - 1) .inProgress ++ [e]) ∨
    (¬ f.IsFor a cap ∧ ∃ i j, i + 1 + j = f.bytes.length ∧
      es = List.replicate i .inProgress ++ .error :: List.replicate j .inProgress)
  | .noise bytes _, es => es = List.replicate bytes.length .inProgress

/-- A hunting receiver hears a segment out and hunts again. -/
theorem receiveAll_segment (a : UInt8) (cap : Nat) (s : Segment) :
    ∃ vs, stuffing.receiveAll (judge a cap) none s.bytes = (none, vs) ∧
      s.Heard a cap (vs.map eventOf) := by
  have settled : Settled none := by rintro f ⟨⟩
  cases s with
  | noise bytes quiet =>
    exact ⟨_, stuffing.receiveAll_hunting (judge a cap) bytes quiet,
      by simp [Segment.Heard, eventOf]⟩
  | frame f =>
    simp only [Segment.bytes, Segment.Heard, f.bytes_eq]
    by_cases us : f.IsFor a cap
    · obtain ⟨hd, fits⟩ := us
      obtain ⟨len, hlen, run⟩ := receiveAll_accept (a := a) settled f.src f.short fits
      rw [hd]
      refine ⟨_, run, Or.inl ⟨⟨hd, fits⟩, _, ⟨len, hlen, rfl⟩, ?_⟩⟩
      simp [eventOf]
    · obtain ⟨i, j, hij, run⟩ := receiveAll_reject settled f.src f.short us
      refine ⟨_, run, Or.inr ⟨us, i, j, hij, ?_⟩⟩
      simp [eventOf]

theorem receiveAll_stream (a : UInt8) (cap : Nat) (segments : List Segment) :
    ∃ vss : List (List (Verdict (UInt8 × UInt16 × Bytes))),
      stuffing.receiveAll (judge a cap) none (segments.flatMap Segment.bytes) =
        (none, vss.flatten) ∧
      List.Forall₂ (fun s vs => s.Heard a cap (vs.map eventOf)) segments vss := by
  induction segments with
  | nil => exact ⟨[], rfl, .nil⟩
  | cons s segments ih =>
    obtain ⟨vs, hrun, heard⟩ := receiveAll_segment a cap s
    obtain ⟨vss, hrest, all⟩ := ih
    refine ⟨vs :: vss, ?_, .cons heard all⟩
    rw [List.flatMap_cons, Stuffing.receiveAll_append, hrun]
    simp only [hrest, List.flatten_cons]

/-- A fresh reader hears every stream of frames and noise segment by segment: each frame for it
is delivered on its last byte with its source, length and payload, each other frame gives one
error, and no other byte reports anything. -/
theorem stream_heard (a : UInt8) (buf : Bytes) (segments : List Segment) :
    ∃ events : List (List Reader.Event),
      List.Forall₂ (Segment.Heard a buf.length) segments events ∧
      ((Reader.init a buf buf.length).feedAll (segments.flatMap Segment.bytes)).2 =
        events.flatten := by
  obtain ⟨vss, run, heard⟩ := receiveAll_stream a buf.length segments
  refine ⟨vss.map (List.map eventOf), List.forall₂_map_right_iff.mpr heard, ?_⟩
  rw [(feedAll_tracks (tracks_init a buf) _).2, run, List.map_flatten]

/-- The payload of a ready frame. -/
def Reader.Event.payload? : Reader.Event → Option Bytes
  | .frameReady _ _ payload => some payload
  | _ => none

theorem receiveAll_line (a : UInt8) {cap : Nat} (src : UInt8) {payloads : List Bytes}
    (short : ∀ p ∈ payloads, p.length ≤ 65535 ∧ p.length ≤ cap) :
    ∃ vs, stuffing.receiveAll (judge a cap) none (payloads.flatMap (wire src a)) = (none, vs) ∧
      (vs.map eventOf).filterMap Reader.Event.payload? = payloads := by
  induction payloads with
  | nil => exact ⟨[], rfl, rfl⟩
  | cons p payloads ih =>
    obtain ⟨hshort, hfits⟩ := short p List.mem_cons_self
    obtain ⟨len, -, hrun⟩ :=
      receiveAll_accept (a := a) (q := none) (by rintro f ⟨⟩) src hshort hfits
    obtain ⟨vs, hrest, hpayloads⟩ := ih fun q hq => short q (List.mem_cons_of_mem p hq)
    refine ⟨List.replicate ((wire src a p).length - 1) .more ++ [.accept (src, len, p)] ++ vs,
      ?_, ?_⟩
    · rw [List.flatMap_cons, Stuffing.receiveAll_append, hrun, hrest]
    · simp only [List.map_append, List.filterMap_append, hpayloads]
      simp [eventOf, Reader.Event.payload?]

/-- A reader that waits for a flag is handed the payloads of a line of frames for it, and waits
again. -/
theorem feedAll_line {r : Reader} (h : Tracks a cap r none) (src : UInt8) {payloads : List Bytes}
    (short : ∀ p ∈ payloads, p.length ≤ 65535 ∧ p.length ≤ cap) :
    Tracks a cap (r.feedAll (payloads.flatMap (wire src a))).1 none ∧
      (r.feedAll (payloads.flatMap (wire src a))).2.filterMap Reader.Event.payload? =
        payloads := by
  obtain ⟨vs, hrun, hpayloads⟩ := receiveAll_line a src short
  obtain ⟨hafter, hevents⟩ := feedAll_tracks h (payloads.flatMap (wire src a))
  rw [hrun] at hafter hevents
  exact ⟨hafter, by rw [hevents, hpayloads]⟩

/-! ## Text between frames -/

/-- The bytes `out` are frames of the payloads, in order, with flag-free text in front of them,
between them and behind. -/
inductive Speaks (src dst : UInt8) : Bytes → List Bytes → Prop where
  | nil : Speaks src dst [] []
  | text {bytes out : Bytes} {payloads : List Bytes} (quiet : flag ∉ bytes)
      (rest : Speaks src dst out payloads) : Speaks src dst (bytes ++ out) payloads
  | frame {payload out : Bytes} {payloads : List Bytes} (short : payload.length ≤ 65535)
      (rest : Speaks src dst out payloads) :
      Speaks src dst (wire src dst payload ++ out) (payload :: payloads)

namespace Speaks

variable {src dst : UInt8} {out out' : Bytes} {payloads payloads' : List Bytes}

theorem append (h : Speaks src dst out payloads) (h' : Speaks src dst out' payloads') :
    Speaks src dst (out ++ out') (payloads ++ payloads') := by
  induction h with
  | nil => exact h'
  | text quiet _ ih => simpa using ih.text quiet
  | frame short _ ih => simpa using ih.frame short

/-- A reader that waits for a flag is handed the payloads it has room for, and waits again. -/
theorem heard (h : Speaks src a out payloads) {r : Reader} (ht : Tracks a cap r none) :
    Tracks a cap (r.feedAll out).1 none ∧
      (r.feedAll out).2.filterMap Reader.Event.payload? =
        payloads.filter fun p => p.length ≤ cap := by
  have settled : Settled none := by rintro f ⟨⟩
  have received : ∃ vs, stuffing.receiveAll (judge a cap) none out = (none, vs) ∧
      (vs.map eventOf).filterMap Reader.Event.payload? =
        payloads.filter fun p => p.length ≤ cap := by
    induction h with
    | nil => exact ⟨[], rfl, rfl⟩
    | @text bytes _ _ quiet _ ih =>
      obtain ⟨vs, hrest, hpayloads⟩ := ih
      have htext := stuffing.receiveAll_hunting (judge a cap) bytes quiet
      refine ⟨_ ++ vs, by rw [Stuffing.receiveAll_append, htext, hrest], ?_⟩
      simp [hpayloads, eventOf, Reader.Event.payload?]
    | @frame payload _ _ short _ ih =>
      obtain ⟨vs, hrest, hpayloads⟩ := ih
      by_cases fits : payload.length ≤ cap
      · obtain ⟨len, -, hframe⟩ := receiveAll_accept (a := a) settled src short fits
        refine ⟨_ ++ vs, by rw [Stuffing.receiveAll_append, hframe, hrest], ?_⟩
        simp [hpayloads, eventOf, Reader.Event.payload?, fits]
      · obtain ⟨i, j, -, hframe⟩ := receiveAll_reject (a := a) settled src short fun h => fits h.2
        refine ⟨_ ++ vs, by rw [Stuffing.receiveAll_append, hframe, hrest], ?_⟩
        have hquiet (n : Nat) :
            (List.replicate n Reader.Event.inProgress).filterMap Reader.Event.payload? = [] :=
          List.filterMap_replicate_of_none rfl
        simp [hpayloads, eventOf, hquiet, fits, List.filterMap_cons, Reader.Event.payload?]
  obtain ⟨vs, hrun, hpayloads⟩ := received
  obtain ⟨hafter, hevents⟩ := feedAll_tracks ht out
  rw [hrun] at hafter hevents
  exact ⟨hafter, by rw [hevents, hpayloads]⟩

end Speaks

/-! ## The first frame after any history -/

/-- The bytes `p` leave an escape open: since the last flag that opened a frame they form a
frame for `a`, neither complete nor rejected yet, that stops between an escape and its octet. -/
def EscapeOpen (a : UInt8) (cap : Nat) (p : Bytes) : Prop :=
  ∃ o, (stuffing.receiveAll (judge a cap) none p).1 = some ⟨o, true⟩

/-- After `p`, the last byte of `f` delivers it. -/
def DeliveredAfter (a : UInt8) (buf p : Bytes) (f : SentFrame) : Prop :=
  ∃ e, f.Ready e ∧
    (((Reader.init a buf buf.length).feedAll p).1.feedAll f.bytes).2.getLast? = some e

/-- The events of a frame after `p` are the receiver's verdicts on it. -/
theorem events_after (a : UInt8) (buf p bytes : Bytes) :
    (((Reader.init a buf buf.length).feedAll p).1.feedAll bytes).2 =
      (stuffing.receiveAll (judge a buf.length)
        (stuffing.receiveAll (judge a buf.length) none p).1 bytes).2.map eventOf :=
  (feedAll_tracks (feedAll_tracks (tracks_init a buf) p).1 bytes).2

theorem settled_of_not_escapeOpen {p : Bytes} (h : ¬ EscapeOpen a cap p) :
    Settled (stuffing.receiveAll (judge a cap) none p).1 := by
  rintro ⟨o, e⟩ hf
  cases e with
  | false => rfl
  | true => exact absurd ⟨o, hf⟩ h

/-- Behind an open escape the flag is taken for an octet, so a whole frame is one octet too long
for its own length field. -/
theorem not_accept_after_escape {o : Bytes} {src : UInt8} {payload : Bytes} {len : UInt16}
    (hlen : len.toNat = payload.length) (src' : UInt8) (payload' : Bytes) :
    (stuffing.receiveAll (judge a cap) (some ⟨o, true⟩) (wire src a payload)).2.getLast? ≠
      some (.accept (src', len, payload')) := by
  intro last
  have step : stuffing.receive (judge a cap) (some ⟨o, true⟩) flag =
      Stuffing.conclude (judge a cap) (o ++ [stuffing.mask flag]) := rfl
  have tail_ne : (stuffing.receiveAll (judge a cap)
      (Stuffing.conclude (judge a cap) (o ++ [stuffing.mask flag])).1
      (stuffing.stuff (frameOctets src a payload))).2 ≠ [] := by
    rw [← List.length_pos_iff, Stuffing.length_receiveAll, frameOctets, Stuffing.stuff_cons,
      List.length_append]
    have := stuffing.length_stuffOne_pos src
    omega
  rw [wire, Stuffing.receiveAll_cons, step, List.getLast?_cons,
    List.getLast?_eq_some_getLast tail_ne, Option.getD_some] at last
  have last := (List.getLast?_eq_some_getLast tail_ne).trans last
  by_cases hj : judge a cap (o ++ [stuffing.mask flag]) = .more
  · have hc : Stuffing.conclude (judge a cap) (o ++ [stuffing.mask flag]) =
        (some ⟨o ++ [stuffing.mask flag], false⟩, .more) := by simp [Stuffing.conclude, hj]
    rw [hc] at last
    have total := length_of_accept (stuffing.judge_of_last (judge a cap) _ _ (by simp) last)
    simp [frameOctets] at total
    omega
  · have hc : (Stuffing.conclude (judge a cap) (o ++ [stuffing.mask flag])).1 = none := by
      unfold Stuffing.conclude
      cases h : judge a cap (o ++ [stuffing.mask flag]) <;> simp_all
    rw [hc, stuffing.receiveAll_hunting _ _ (stuffing.flag_not_mem_stuff _),
      List.getLast?_replicate] at last
    split at last <;> cases last

/-- The first frame for a reader after an arbitrary history is delivered by its last byte
exactly when the history does not end between an escape and its octet. -/
theorem resync_iff (a : UInt8) (buf p : Bytes) (f : SentFrame) (us : f.IsFor a buf.length) :
    DeliveredAfter a buf p f ↔ ¬ EscapeOpen a buf.length p := by
  obtain ⟨hd, fits⟩ := us
  unfold DeliveredAfter
  rw [events_after, f.bytes_eq, hd, List.getLast?_map]
  constructor
  · rintro ⟨e, ⟨len, hlen, rfl⟩, last⟩ ⟨o, ho⟩
    rw [ho] at last
    obtain ⟨v, hv, hev⟩ := Option.map_eq_some_iff.mp last
    cases v with
    | more | reject => cases hev
    | accept r =>
      obtain ⟨src', len', payload'⟩ := r
      cases hev
      exact not_accept_after_escape hlen _ _ hv
  · intro closed
    obtain ⟨len, hlen, run⟩ := receiveAll_accept (a := a) (settled_of_not_escapeOpen closed)
      f.src f.short fits
    refine ⟨_, ⟨len, hlen, rfl⟩, ?_⟩
    rw [run]
    simp [eventOf]

/-- A one-byte payload from address 1 to address 2. -/
def shortFrame : SentFrame := ⟨32, 1, 2, [0x42], by decide, by decide⟩

/-- Line noise with a stray escape in front of a frame. -/
theorem resync_after_noise :
    shortFrame.IsFor 2 (List.replicate 4 0).length ∧
      DeliveredAfter 2 (List.replicate 4 0) [0x00, 0xFF, 0x7D, 0x11, 0x22] shortFrame := by
  have us : shortFrame.IsFor 2 (List.replicate 4 0 : Bytes).length := by
    unfold SentFrame.IsFor
    decide
  refine ⟨us, (resync_iff 2 _ _ shortFrame us).mpr ?_⟩
  rintro ⟨o, ho⟩
  cases ho

/-- A frame cut off after an escape byte swallows the flag of the next one. -/
theorem truncated_escape_loses_frame :
    shortFrame.IsFor 2 (List.replicate 4 0).length ∧
      ¬ DeliveredAfter 2 (List.replicate 4 0) ((frameEncode 32 1 2 [0x7E]).2.take 6)
        shortFrame := by
  refine ⟨by unfold SentFrame.IsFor; decide, ?_⟩
  rintro ⟨e, ⟨len, -, rfl⟩, last⟩
  have quiet : (((Reader.init 2 (List.replicate 4 0) 4).feedAll
      ((frameEncode 32 1 2 [0x7E]).2.take 6)).1.feedAll shortFrame.bytes).2.getLast? =
      some .inProgress := by decide +kernel
  exact absurd (quiet.symm.trans last) (by simp)

/-! ## The frame grammar -/

/-- The reader has an escape pending exactly when the receiver of the framing has. -/
theorem Tracks.settled_iff {a : UInt8} {cap : Nat} {r : Reader} {q : Option (OpenFrame UInt8)}
    (h : Tracks a cap r q) : r.haveEscape = false ↔ Settled q := by
  constructor
  · intro hesc f hf
    rw [← (h.collecting f hf).1, hesc]
  · intro settled
    cases q with
    | none => exact (h.hunting rfl).2
    | some f => rw [(h.collecting f rfl).1, settled f rfl]

/-- The last of the bytes fed to a fresh reader delivers a frame exactly when they end in a flag,
read while no escape was pending, and bytes without a further flag that unstuff to source, address,
length, payload and CRC of the frame. -/
theorem frameReady_iff (a : UInt8) (buf b : Bytes) (s : UInt8) (n : UInt16) (p : Bytes) :
    ((Reader.init a buf buf.length).feedAll b).2.getLast? = some (.frameReady s n p) ↔
      ∃ q body, b = q ++ flag :: body ∧
        ((Reader.init a buf buf.length).feedAll q).1.haveEscape = false ∧
        stuffing.unstuff false body = some (s :: a :: n.toUInt8 :: (n >>> 8).toUInt8 ::
          (p ++ [(crc16 p).toUInt8, (crc16 p >>> 8).toUInt8])) ∧
        p.length = n.toNat ∧ n.toNat ≤ buf.length := by
  have hsettled (q : Bytes) := (feedAll_tracks (tracks_init a buf) q).1.settled_iff
  rw [(feedAll_tracks (tracks_init a buf) b).2, List.getLast?_map]
  constructor
  · intro last
    obtain ⟨v, hlast, hv⟩ := Option.map_eq_some_iff.mp last
    obtain rfl : v = .accept (s, n, p) := by
      cases v with
      | more | reject => cases hv
      | accept r =>
        obtain ⟨src, len, payload⟩ := r
        cases hv
        rfl
    rcases stuffing.unstuff_of_last _ none b (by simp) hlast with
      ⟨_, _, _, hq, _⟩ | ⟨q, body, xs, hb, settled, hxs, hj⟩
    · cases hq
    · obtain ⟨hlen, fits, rfl⟩ := octets_of_accept hj
      exact ⟨q, body, hb, (hsettled q).mpr settled, by rw [hxs, frameOctets_eq s a hlen], hlen,
        fits⟩
  · rintro ⟨q, body, rfl, hesc, hxs, hlen, fits⟩
    have short : p.length ≤ 65535 := by
      have := n.toNat_lt
      omega
    rw [← frameOctets_eq s a hlen] at hxs
    obtain ⟨len, hlen', hj⟩ := judge_frame (a := a) s short (hlen ▸ fits)
    obtain rfl : len = n := UInt16.toNat_inj.mp (hlen'.trans hlen)
    have hopen := stuffing.receive_flag (judge a buf.length) _ ((hsettled q).mp hesc)
    have hlast := stuffing.last_of_unstuff (judge a buf.length) [] false body hxs
      (by simp [frameOctets]) fun ys hys _ hne => judge_prefix short (hlen ▸ fits) hys hne
    rw [show stuffing.flag = flag from rfl] at hopen
    rw [Stuffing.receiveAll_append, Stuffing.receiveAll_cons, hopen, List.getLast?_append,
      List.getLast?_cons, hlast, List.nil_append, hj]
    rfl

/-! ## A flag erases the past -/

/-- From a flag read outside an escape pair on, a reader reports what a hunting receiver does,
whatever its other fields hold. -/
theorem feedAll_flag {r : Reader} (cfg : Config a cap r) (settled : r.haveEscape = false)
    (bs : Bytes) :
    (r.feedAll (flag :: bs)).2 =
      (stuffing.receiveAll (judge a cap) none (flag :: bs)).2.map eventOf := by
  have hfeed : r.feed flag = ({ r with state := .readSrc, haveEscape := false }, .inProgress) := by
    simp [Reader.feed, settled]
  have hopen : stuffing.receive (judge a cap) none flag = (some ⟨[], false⟩, .more) := rfl
  rw [Stuffing.receiveAll_cons, hopen, List.map_cons, ← (feedAll_tracks cfg.tracks_open bs).2]
  simp only [Reader.feedAll, hfeed]
  rfl

/-- Two readers of one address and capacity with no escape pending report the same from a flag on,
with the same source, length and payload at every frame, whatever they held before. -/
theorem flag_erases_history {r r' : Reader} (cfg : Config a cap r) (cfg' : Config a cap r')
    (settled : r.haveEscape = false) (settled' : r'.haveEscape = false) (bs : Bytes) :
    (r.feedAll (flag :: bs)).2 = (r'.feedAll (flag :: bs)).2 := by
  rw [feedAll_flag cfg settled, feedAll_flag cfg' settled']

/-- A fresh reader and one with every field stale in the middle of a payload. -/
theorem flag_erases_history_stale :
    let stale : Reader := ⟨.readPayload, 2, 9, 7, 40000, 0xBEEF, 0xCAFE, false, [5, 6, 7, 8], 4⟩
    (stale.feedAll (wire 1 2 [0x42])).2 =
      ((Reader.init 2 (List.replicate 4 0) 4).feedAll (wire 1 2 [0x42])).2 :=
  @flag_erases_history 2 4 _ _ ⟨rfl, rfl, rfl⟩ ⟨rfl, rfl, rfl⟩ rfl rfl _

end RtosXrce.Xrce.Serial
