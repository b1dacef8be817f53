import RtosXrce.Xrce.LengthFields

/-!
# What the parsers of the replies accept

Every parser of `session.c` skips the message header, compares the id of the first submessage and
reads on behind its header. What each of them accepts, and what it returns, follows from what its
own part reads there.
-/

namespace RtosXrce.Xrce.Session

open Library Library.Fallible Cdr

/-! ## The submessage -/

/-- The buffer holds a message header and the header of a submessage of the given kind. -/
def HoldsSubmessage (submessageId : UInt8) (buf : Nat → UInt8) (len : Nat) : Prop :=
  headerLen (buf 0) + 4 ≤ len ∧ buf (headerLen (buf 0)) = submessageId

instance (submessageId : UInt8) (buf : Nat → UInt8) (len : Nat) :
    Decidable (HoldsSubmessage submessageId buf len) := inferInstanceAs (Decidable (_ ∧ _))

/-- The reader behind the header of the first submessage. -/
def behindSubmessage (buf : Nat → UInt8) (len : Nat) : Cdr.Reader :=
  ⟨buf, len, headerLen (buf 0) + 4, 0⟩

theorem headerLen_even (sessionId : UInt8) : headerLen sessionId % 2 = 0 := by
  rcases Memory.headerLen_cases sessionId with h | h <;> rw [h]

theorem four_le_headerLen (sessionId : UInt8) : 4 ≤ headerLen sessionId := by
  rcases Memory.headerLen_cases sessionId with h | h <;> rw [h]
  decide

variable {α : Type} {submessageId : UInt8} {body : Read α} {buf : Nat → UInt8} {len : Nat}

/-- A parser fails outside of its submessages, and is its own part behind their headers. -/
theorem parse_eq (submessageId : UInt8) (body : Read α) (buf : Nat → UInt8) (len : Nat) :
    parse submessageId body buf len =
      if HoldsSubmessage submessageId buf len then (exec body (behindSubmessage buf len)).1
      else none := by
  have hfour := four_le_headerLen (buf 0)
  by_cases hlen : headerLen (buf 0) + 4 ≤ len
  · have inside : ∀ k ≤ 4, ((behindHeader buf len).skip k).pos ≤ len := by
      intro k hk
      simp only [behindHeader, Cdr.Reader.skip]
      omega
    have header : exec skipMessageHeader (readerInit buf len) = (some (), behindHeader buf len) :=
      exec_skipMessageHeader_of_le (by omega) (by omega)
    have id := (exec_readU8 (behindHeader buf len)).trans (taken_of_le _ (inside 1 (by decide)))
    have flags := (exec_readU8 ((behindHeader buf len).skip 1)).trans
      (taken_of_le _ (inside 2 (by decide)))
    have length := (exec_readLength buf len).trans (taken_of_le _ (inside 4 (by decide)))
    rw [parse, exec_bind_of_some header, exec_bind_of_some id, exec_bind_of_some flags,
      exec_bind_of_some length, exec_ite]
    by_cases kind : buf (headerLen (buf 0)) = submessageId
    · have kind' : ¬ (behindHeader buf len).buf (behindHeader buf len).pos ≠ submessageId :=
        not_not.mpr kind
      rw [if_neg kind', if_pos ⟨hlen, kind⟩]
      rfl
    · have kind' : (behindHeader buf len).buf (behindHeader buf len).pos ≠ submessageId := kind
      rw [if_pos kind', if_neg fun h => kind h.2]
      rfl
  · rw [if_neg fun h => hlen h.1]
    by_contra hsome
    obtain ⟨a, ha⟩ := Option.ne_none_iff_exists'.mp hsome
    obtain ⟨r, hrun⟩ : ∃ r, exec _ (readerInit buf len) = (some a, r) := ⟨_, Prod.ext ha rfl⟩
    obtain ⟨_, _, hheader, hrun⟩ := exec_bind_eq_some hrun
    obtain ⟨-, rfl⟩ := exec_skipMessageHeader_eq_some hheader
    obtain ⟨_, _, hid, hrun⟩ := exec_bind_eq_some hrun
    rw [exec_readU8] at hid
    obtain ⟨-, -, rfl⟩ := taken_eq_some hid
    obtain ⟨_, _, hflags, hrun⟩ := exec_bind_eq_some hrun
    rw [exec_readU8] at hflags
    obtain ⟨-, -, rfl⟩ := taken_eq_some hflags
    obtain ⟨_, _, hlength, -⟩ := exec_bind_eq_some hrun
    rw [exec_readLength] at hlength
    obtain ⟨room, -, -⟩ := taken_eq_some hlength
    exact hlen room

/-! ## What stands behind it -/

/-- Where there are `n` bytes left, the step reads them and returns `a`; elsewhere it fails. -/
structure Consumes (read : Read α) (r : Cdr.Reader) (n : Nat) (a : α) : Prop where
  takes : r.pos + n ≤ r.len → exec read r = (some a, r.skip n)
  fails : r.len < r.pos + n → (exec read r).1 = none

theorem consumes_of_taken {read : Read α} {r : Cdr.Reader} {n : Nat} {value : Cdr.Reader → α}
    (h : exec read r = taken n value r) : Consumes read r n (value r) where
  takes room := h.trans (taken_of_le value room)
  fails short := by
    rw [h, taken, if_neg (Nat.not_le.mpr short)]

theorem Consumes.bind {β : Type} {read : Read α} {k : α → Read β} {r : Cdr.Reader} {m n : Nat}
    {a : α} {b : β} (hread : Consumes read r m a) (hk : Consumes (k a) (r.skip m) n b) :
    Consumes (read >>= k) r (m + n) b where
  takes room := by
    have hsecond := hk.takes (by simp only [Cdr.Reader.skip]; omega)
    rw [exec_bind_of_some (hread.takes (by omega)), hsecond, Cdr.Reader.skip, Cdr.Reader.skip,
      Nat.add_assoc]
    rfl
  fails short := by
    by_cases room : r.pos + m ≤ r.len
    · rw [exec_bind_of_some (hread.takes room)]
      exact hk.fails (by simp only [Cdr.Reader.skip]; omega)
    · rw [exec_bind_of_none (Prod.ext (hread.fails (Nat.not_le.mp room)) rfl)]

/-- What is left of the step after its last read neither fails nor moves the reader. -/
theorem Consumes.finish {β : Type} {read : Read α} {k : α → Read β} {r : Cdr.Reader} {n : Nat}
    {a : α} {b : β} (hread : Consumes read r n a)
    (hk : exec (k a) (r.skip n) = (some b, r.skip n)) : Consumes (read >>= k) r n b where
  takes room := (exec_bind_of_some (hread.takes room)).trans hk
  fails short := by rw [exec_bind_of_none (Prod.ext (hread.fails short) rfl)]

theorem consumes_fetch {n : Nat} (hn : 0 < n) (r : Cdr.Reader) :
    Consumes (fetch n) r n (Vector.ofFn fun i => r.buf (r.pos + i)) :=
  consumes_of_taken (exec_fetch_eq hn r)

/-- A parser whose own part reads `n` bytes. -/
theorem parse_eq_some_iff {n : Nat} {a a' : α}
    (hbody : Consumes body (behindSubmessage buf len) n a) :
    parse submessageId body buf len = some a' ↔
      headerLen (buf 0) + 4 + n ≤ len ∧ buf (headerLen (buf 0)) = submessageId ∧ a = a' := by
  rw [parse_eq]
  constructor
  · intro h
    split at h
    next holds =>
      by_cases room : headerLen (buf 0) + 4 + n ≤ len
      · rw [hbody.takes room] at h
        exact ⟨room, holds.2, Option.some.inj h⟩
      · rw [hbody.fails (Nat.not_le.mp room)] at h
        cases h
    next => cases h
  · rintro ⟨room, kind, rfl⟩
    rw [if_pos ⟨by omega, kind⟩, hbody.takes room]

/-! ## The parsers -/

/-- The object id packed into two bytes. -/
def objectIdAt (buf : Nat → UInt8) (i : Nat) : ObjectId where
  id := (buf i).toUInt16 <<< 4 ||| (buf (i + 1) >>> 4).toUInt16
  kind := buf (i + 1) &&& 0x0F

/-- A status byte that reports success. -/
def Successful (status : UInt8) : Prop := status = statusOk ∨ status = statusOkMatched

instance : DecidablePred Successful := fun _ => inferInstanceAs (Decidable (_ ∨ _))

theorem consumes_readStatus (r : Cdr.Reader) :
    Consumes readStatus r 1 (decide (Successful (r.buf r.pos))) :=
  (consumes_of_taken (exec_readU8 r)).finish rfl

theorem consumes_readObjectId (r : Cdr.Reader) :
    Consumes readObjectId r 2 (objectIdAt r.buf r.pos) := by
  have hvalue (raw : Vector UInt8 2) (q : Cdr.Reader) : exec (do
      let hi := raw.get ⟨0, Nat.zero_lt_two⟩
      let lo := raw.get ⟨1, Nat.one_lt_two⟩
      return { id := hi.toUInt16 <<< 4 ||| (lo >>> 4).toUInt16, kind := lo &&& 0x0F }) q =
        (some (⟨raw[0].toUInt16 <<< 4 ||| (raw[1] >>> 4).toUInt16, raw[1] &&& 0x0F⟩ : ObjectId),
          q) := rfl
  have hread : Consumes readObjectId r 2 _ := (consumes_fetch Nat.zero_lt_two r).finish (hvalue _ _)
  simp only [Vector.getElem_ofFn] at hread
  exact hread

/-- A message with a successful status behind the header of its submessage and `ids` bytes. -/
def Reports (submessageId : UInt8) (ids : Nat) (buf : Nat → UInt8) (len : Nat) : Prop :=
  headerLen (buf 0) + 4 + (ids + 1) ≤ len ∧ buf (headerLen (buf 0)) = submessageId ∧
    Successful (buf (headerLen (buf 0) + 4 + ids))

theorem parseCreateClientReply_iff (buf : Nat → UInt8) (len : Nat) :
    parseCreateClientReply buf len = true ↔ Reports submsgStatusAgent 0 buf len := by
  have hparse : parse submsgStatusAgent readStatus buf len = some true ↔ _ :=
    parse_eq_some_iff (consumes_readStatus _)
  rw [decide_eq_true_eq] at hparse
  rw [parseCreateClientReply, Option.getD_eq_iff, hparse]
  simp [Reports, behindSubmessage]

theorem parseStatusReply_iff (buf : Nat → UInt8) (len : Nat) :
    parseStatusReply buf len = true ↔ Reports submsgStatus 4 buf len := by
  have hparse : parse submsgStatus (do let _ ← readBytes 4; readStatus) buf len = some true ↔ _ :=
    parse_eq_some_iff ((consumes_fetch (n := 4) (by decide) _).bind (consumes_readStatus _))
  rw [decide_eq_true_eq] at hparse
  rw [parseStatusReply, Option.getD_eq_iff, hparse]
  simp [Reports, behindSubmessage, Cdr.Reader.skip]

/-- A DATA submessage with its two ids, or one of another kind with the same contents. -/
def readSample : Read Data := do
  let _requestIdRaw ← readBytes 2
  let objectId ← readObjectId
  let r ← get
  return { objectId, sampleStart := r.pos, sampleLen := r.len - r.pos }

theorem parse_readSample_iff (submessageId : UInt8) (buf : Nat → UInt8) (len : Nat) (d : Data) :
    parse submessageId readSample buf len = some d ↔
      headerLen (buf 0) + 4 + (2 + 2) ≤ len ∧ buf (headerLen (buf 0)) = submessageId ∧
        ⟨objectIdAt buf (headerLen (buf 0) + 6), headerLen (buf 0) + 8,
          len - (headerLen (buf 0) + 8)⟩ = d :=
  parse_eq_some_iff ((consumes_fetch (n := 2) (by decide) (behindSubmessage buf len)).bind
    ((consumes_readObjectId _).finish rfl))

theorem parseData_iff (buf : Nat → UInt8) (len : Nat) (d : Data) :
    parseData buf len = some d ↔
      headerLen (buf 0) + 4 + (2 + 2) ≤ len ∧ buf (headerLen (buf 0)) = submsgData ∧
        ⟨objectIdAt buf (headerLen (buf 0) + 6), headerLen (buf 0) + 8,
          len - (headerLen (buf 0) + 8)⟩ = d :=
  parse_readSample_iff submsgData buf len d

theorem parseAcknack_iff (buf : Nat → UInt8) (len : Nat) (a : Acknack) :
    parseAcknack buf len = some a ↔
      headerLen (buf 0) + 4 + (2 + (2 + 1)) ≤ len ∧
        buf (headerLen (buf 0)) = submsgAcknack ∧
        ⟨Serial.word (buf (headerLen (buf 0) + 4)) (buf (headerLen (buf 0) + 5)),
          Serial.word (buf (headerLen (buf 0) + 6)) (buf (headerLen (buf 0) + 7))⟩ = a := by
  have even : (behindSubmessage buf len).off % 2 = 0 := by
    have := headerLen_even (buf 0)
    simp only [behindSubmessage, Cdr.Reader.off]
    omega
  have hparse : parse submsgAcknack (do
      let firstUnacked ← readU16
      let bitmapBytes ← readBytes 2
      let _targetStream ← readU8
      return { firstUnacked, bitmap := gatherU16 bitmapBytes }) buf len = some a ↔ _ :=
    parse_eq_some_iff ((consumes_of_taken (exec_readU16 even)).bind
      ((consumes_fetch (n := 2) (by decide) _).bind
        ((consumes_of_taken (exec_readU8 _)).finish rfl)))
  rw [parseAcknack, hparse]
  simp [gatherU16, Serial.word, behindSubmessage, Cdr.Reader.skip]

end RtosXrce.Xrce.Session
