import RtosXrce.Library.Transition
import RtosXrce.Xrce.ReliableStream

/-!
# Runs of the reliable sender

A sender numbers its messages consecutively from `s`, offers each one to `track` until it is
accepted, and processes ACKNACKs whose `first_unacked` lies between the first unacknowledged
number and one past the last sent one. The log of accepted messages and the list of processed
ACKNACKs are ghost data.

`Inv` holds in every run: the window never exceeds the ring, and the slot of every number in it
carries that number's message. Whether the slot is still *occupied* is a separate matter: the
freeing loop starts at `last_acknown` itself, whose slot is the one of `last_sent` when the
window is full.
-/

namespace RtosXrce.Xrce

open Library

/-- The slot of `seq` is occupied by exactly `msg`. -/
def ReliableOut.Stored (ro : ReliableOut) (seq : UInt16) (msg : Bytes) : Prop :=
  ro.occupied (slotFor seq) = true ∧ ro.len (slotFor seq) = msg.length ∧
    (ro.buf (slotFor seq)).take (ro.len (slotFor seq)) = msg

instance (ro : ReliableOut) (seq : UInt16) (msg : Bytes) : Decidable (ro.Stored seq msg) :=
  inferInstanceAs (Decidable (_ ∧ _ ∧ _))

/-- Messages sent and not acknowledged yet. -/
def ReliableOut.unacked (ro : ReliableOut) : Nat := (ro.lastSent - ro.lastAcknown).toNat

/-- A sender in the middle of a run: `next` is the number of the message it offers next, `log`
holds the accepted messages (newest first) and `acks` the processed ACKNACKs. -/
structure Sender where
  ro : ReliableOut
  next : UInt16
  log : List (UInt16 × Bytes)
  acks : List (UInt16 × UInt16)

namespace Sender

inductive Action where
  | track (msg : Bytes)
  | acknack (firstUnacked bitmap : UInt16)
  | retransmit
  deriving DecidableEq

/-- A fresh stream whose first message gets number `s`. -/
def start (s : UInt16) : Sender where
  ro := { ReliableOut.init with lastAcknown := s - 1 }
  next := s
  log := []
  acks := []

/-- `first_unacked` lies in `last_acknown + 1, …, last_sent + 1`. -/
def InRange (ro : ReliableOut) (firstUnacked : UInt16) : Prop :=
  (firstUnacked - (ro.lastAcknown + 1)).toNat ≤ ro.unacked

instance (ro : ReliableOut) (f : UInt16) : Decidable (InRange ro f) :=
  inferInstanceAs (Decidable (_ ≤ _))

def step (st : Sender) : Action → Option Sender
  | .track msg =>
    match st.ro.track st.next msg with
    | (true, ro) => some { st with ro := ro, next := st.next + 1, log := (st.next, msg) :: st.log }
    | (false, ro) => some { st with ro := ro }
  | .acknack f bitmap =>
    if st.ro.anySent ∧ InRange st.ro f then
      some { st with ro := st.ro.onAcknack f bitmap, acks := (f, bitmap) :: st.acks }
    else none
  | .retransmit => some { st with ro := st.ro.nextRetransmit.1 }

def system : System Sender Action := ⟨step⟩

/-- Every accepted message in the window is still stored. A number is looked up in the log
newest first, so it names the last message accepted under it. -/
def Retained (st : Sender) : Prop :=
  ∀ q msg, InWindow st.ro.lastAcknown st.ro.lastSent q → st.log.lookup q = some msg →
    st.ro.Stored q msg

/-! ## The invariant of every run -/

structure Inv (st : Sender) : Prop where
  fresh : st.ro.anySent = false →
    st.next = st.ro.lastAcknown + 1 ∧ st.log = [] ∧ st.acks = []
  next_eq : st.ro.anySent = true → st.next = st.ro.lastSent + 1
  window : st.ro.anySent = true → st.ro.unacked ≤ reliableWindow
  carries : st.ro.anySent = true → ∀ q, InWindow st.ro.lastAcknown st.ro.lastSent q →
    ∃ msg, st.log.lookup q = some msg ∧ st.ro.len (slotFor q) = msg.length ∧
      (st.ro.buf (slotFor q)).take (st.ro.len (slotFor q)) = msg

theorem inv_start (s : UInt16) : Inv (start s) where
  fresh _ := ⟨by simp [start], rfl, rfl⟩
  next_eq h := by simp [start, ReliableOut.init] at h
  window h := by simp [start, ReliableOut.init] at h
  carries h := by simp [start, ReliableOut.init] at h

/-- Everything a step can do. -/
theorem step_cases {st t : Sender} {a : Action} (h : st.step a = some t) :
    (∃ msg, a = .track msg ∧ (st.ro.track st.next msg).1 = true ∧
      t = { st with
        ro := (st.ro.track st.next msg).2
        next := st.next + 1
        log := (st.next, msg) :: st.log }) ∨
    (∃ msg, a = .track msg ∧ (st.ro.track st.next msg).1 = false ∧
      t = { st with ro := (st.ro.track st.next msg).2 }) ∨
    (∃ f bitmap, a = .acknack f bitmap ∧ st.ro.anySent = true ∧ InRange st.ro f ∧
      t = { st with ro := st.ro.onAcknack f bitmap, acks := (f, bitmap) :: st.acks }) ∨
    (a = .retransmit ∧ t = { st with ro := st.ro.nextRetransmit.1 }) := by
  cases a with
  | track msg =>
    simp only [step] at h
    split at h
    next ro heq => exact Or.inl ⟨msg, rfl, by rw [heq], by rw [heq]; simpa using h.symm⟩
    next ro heq => exact Or.inr (Or.inl ⟨msg, rfl, by rw [heq], by rw [heq]; simpa using h.symm⟩)
  | acknack f bitmap =>
    simp only [step] at h
    split at h
    next hc =>
      exact Or.inr (Or.inr (Or.inl ⟨f, bitmap, rfl, hc.1, hc.2, by simpa using h.symm⟩))
    next => cases h
  | retransmit => exact Or.inr (Or.inr (Or.inr ⟨rfl, by simpa [step] using h.symm⟩))

/-- A refused message changes nothing; an accepted one fills its own slot. -/
theorem track_cases (ro : ReliableOut) (seq : UInt16) (msg : Bytes) :
    ((ro.track seq msg).1 = false ∧ (ro.track seq msg).2 = ro) ∨
    ((ro.track seq msg).1 = true ∧
      (ro.anySent = true → (seq - ro.lastAcknown).toNat ≤ reliableWindow) ∧
      (ro.track seq msg).2 = { ro with
        buf := Function.update ro.buf (slotFor seq) (memcpy (ro.buf (slotFor seq)) msg)
        len := Function.update ro.len (slotFor seq) msg.length
        occupied := Function.update ro.occupied (slotFor seq) true
        lastSent := seq
        anySent := true }) := by
  unfold ReliableOut.track
  split_ifs with hlen hwin
  · exact Or.inl ⟨rfl, rfl⟩
  · exact Or.inl ⟨rfl, rfl⟩
  · refine Or.inr ⟨rfl, fun hany => ?_, rfl⟩
    simpa [hany] using hwin

/-- The numbers of a window no longer than the ring have distinct slots. -/
theorem slotFor_ne_next {lo hi q : UInt16} (win : (hi - lo).toNat ≤ 32)
    (room : (hi + 1 - lo).toNat ≤ 32) (hq : InWindow lo hi q) :
    slotFor q ≠ slotFor (hi + 1) := by
  rw [ne_comm, Ne, slotFor_eq_iff]
  obtain ⟨pos, le⟩ := hq
  have h1 := distance_succ hi lo
  have h2 := distance_add (hi + 1) q lo
  have h3 := toNat_lt (hi + 1 - q)
  show ¬ (hi + 1 - q).toNat % 32 = 0
  omega

/-- After an accepted message the window is the old one and the new number. -/
theorem inWindow_track {st : Sender} (inv : Inv st)
    (room : st.ro.anySent = true → (st.next - st.ro.lastAcknown).toNat ≤ reliableWindow)
    {q : UInt16} (hq : InWindow st.ro.lastAcknown st.next q) :
    q = st.next ∨ q ≠ st.next ∧ slotFor q ≠ slotFor st.next ∧ st.ro.anySent = true ∧
      InWindow st.ro.lastAcknown st.ro.lastSent q := by
  cases hany : st.ro.anySent with
  | false =>
    obtain ⟨hnext, -, -⟩ := inv.fresh hany
    rw [hnext] at hq ⊢
    obtain ⟨pos, le⟩ := hq
    have h1 := distance_succ st.ro.lastAcknown st.ro.lastAcknown
    rw [distance_self] at h1
    have h2 : q - st.ro.lastAcknown = 1 := ext_toNat (by show _ = 1; omega)
    exact Or.inl (by grind)
  | true =>
    have hnext := inv.next_eq hany
    have hroom := room hany
    have hwin : (st.ro.lastSent - st.ro.lastAcknown).toNat ≤ 32 := inv.window hany
    rw [hnext] at hq hroom ⊢
    rcases (inWindow_succ (by omega)).mp hq with rfl | old
    · exact Or.inl rfl
    · have ne := slotFor_ne_next hwin hroom old
      exact Or.inr ⟨fun e => ne (by rw [e]), ne, rfl, old⟩

theorem inv_track {st : Sender} {msg : Bytes} (inv : Inv st)
    (room : st.ro.anySent = true → (st.next - st.ro.lastAcknown).toNat ≤ reliableWindow)
    {ro : ReliableOut} (hro : ro = { st.ro with
      buf := Function.update st.ro.buf (slotFor st.next) (memcpy (st.ro.buf (slotFor st.next)) msg)
      len := Function.update st.ro.len (slotFor st.next) msg.length
      occupied := Function.update st.ro.occupied (slotFor st.next) true
      lastSent := st.next
      anySent := true }) :
    Inv { st with ro := ro, next := st.next + 1, log := (st.next, msg) :: st.log } := by
  subst hro
  refine ⟨fun h => by simp at h, fun _ => rfl, fun _ => ?_, fun _ q hq => ?_⟩
  · show (st.next - st.ro.lastAcknown).toNat ≤ 32
    cases hany : st.ro.anySent with
    | true => exact room hany
    | false =>
      obtain ⟨hnext, -, -⟩ := inv.fresh hany
      have h1 := distance_succ st.ro.lastAcknown st.ro.lastAcknown
      rw [distance_self] at h1
      rw [hnext]
      omega
  · rcases inWindow_track inv room hq with rfl | ⟨ne, slot, hany, old⟩
    · exact ⟨msg, by simp, by simp, by simp⟩
    · obtain ⟨m, hlog, hlen, hbuf⟩ := inv.carries hany q old
      refine ⟨m, ?_, ?_, ?_⟩
      · rw [List.lookup_cons, beq_false_of_ne ne]
        exact hlog
      · simpa [Function.update_apply, slot] using hlen
      · simpa [Function.update_apply, slot] using hbuf

/-- An ACKNACK in range moves the lower end up by a distance inside the window. -/
theorem acknack_distance {ro : ReliableOut} {f : UInt16} (range : InRange ro f) :
    (f - 1 - ro.lastAcknown).toNat ≤ ro.unacked ∧
      (f - ro.lastAcknown).toNat = (1 + (f - 1 - ro.lastAcknown).toNat) % 65536 ∧
      ro.unacked = ((ro.lastSent - (f - 1)).toNat + (f - 1 - ro.lastAcknown).toNat) % 65536 := by
  have shift : f - (ro.lastAcknown + 1) = f - 1 - ro.lastAcknown := by grind
  have back : f - 1 + 1 = f := by grind
  have h := distance_succ (f - 1) ro.lastAcknown
  rw [back] at h
  refine ⟨?_, h, distance_add _ _ _⟩
  rw [← shift]
  exact range

/-- Acknowledging leaves a part of the old window, past everything that was freed. -/
theorem inWindow_acknack {ro : ReliableOut} {f q : UInt16} (range : InRange ro f)
    (win : ro.unacked ≤ 32) (hq : InWindow (f - 1) ro.lastSent q) :
    InWindow ro.lastAcknown ro.lastSent q ∧
      (f - ro.lastAcknown).toNat ≤ (q - ro.lastAcknown).toNat := by
  obtain ⟨h1, h2, h3⟩ := acknack_distance range
  obtain ⟨pos, le⟩ := hq
  have h4 := distance_add q (f - 1) ro.lastAcknown
  have h5 := toNat_lt (ro.lastSent - (f - 1))
  have h6 := toNat_lt (q - (f - 1))
  unfold InWindow
  show (_ ∧ _ ≤ ro.unacked) ∧ _
  omega

theorem unacked_acknack {ro : ReliableOut} {f : UInt16} (range : InRange ro f) :
    (ro.lastSent - (f - 1)).toNat ≤ ro.unacked := by
  obtain ⟨h1, -, h3⟩ := acknack_distance range
  have h5 := toNat_lt (ro.lastSent - (f - 1))
  omega

theorem onAcknack_of_sent {ro : ReliableOut} (h : ro.anySent = true) (f bitmap : UInt16) :
    ro.onAcknack f bitmap = { ro with
      occupied := ReliableOut.freeUpTo ro.occupied ro.lastAcknown f
      lastAcknown := f - 1
      sendLost := bitmap != 0
      retransmitCursor := f - 1 } := by
  simp [ReliableOut.onAcknack, h]

theorem inv_step {st t : Sender} {a : Action} (inv : Inv st) (h : st.step a = some t) :
    Inv t := by
  rcases step_cases h with ⟨msg, -, ok, rfl⟩ | ⟨msg, -, ok, rfl⟩ | ⟨f, bm, -, hany, range, rfl⟩ |
    ⟨-, rfl⟩
  · rcases track_cases st.ro st.next msg with ⟨no, -⟩ | ⟨-, room, hro⟩
    · rw [ok] at no; cases no
    · exact inv_track inv room hro
  · rcases track_cases st.ro st.next msg with ⟨-, hro⟩ | ⟨yes, -, -⟩
    · rw [hro]; exact inv
    · rw [ok] at yes; cases yes
  · rw [onAcknack_of_sent hany]
    have win := inv.window hany
    refine ⟨fun h => ?_, fun _ => inv.next_eq hany, fun _ => ?_, fun _ q hq => ?_⟩
    · rw [show st.ro.anySent = false from h] at hany; cases hany
    · exact (unacked_acknack range).trans win
    · exact inv.carries hany q (inWindow_acknack range win hq).1
  · obtain ⟨hbuf, hlen, -, hack, hsent, hany⟩ := st.ro.nextRetransmit_frame
    refine ⟨?_, ?_, ?_, ?_⟩
    · simpa only [hack, hany] using inv.fresh
    · simpa only [hsent, hany] using inv.next_eq
    · simpa only [ReliableOut.unacked, hsent, hack, hany] using inv.window
    · simpa only [hbuf, hlen, hsent, hack, hany] using inv.carries

theorem inv_of_reach {ok : Sender → Action → Prop} {s : UInt16} {st : Sender}
    (h : system.Reach ok (start s) st) : Inv st :=
  h.invariant (inv_start s) fun _ _ _ inv _ hstep => inv_step inv hstep

/-! ## Which messages stay stored -/

/-- The ACKNACK finds room in the ring, or acknowledges everything that was sent. -/
def LeavesRoom (st : Sender) : Action → Prop
  | .acknack f _ => st.ro.unacked < reliableWindow ∨ f = st.ro.lastSent + 1
  | _ => True

/-- Since the slots in the window carry their messages, only the occupied flags matter. -/
theorem retained_iff {st : Sender} (inv : Inv st) :
    st.Retained ↔ (st.ro.anySent = true → ∀ q,
      InWindow st.ro.lastAcknown st.ro.lastSent q → st.ro.occupied (slotFor q) = true) := by
  constructor
  · intro ret hany q hq
    obtain ⟨msg, hlog, -, -⟩ := inv.carries hany q hq
    exact (ret q msg hq hlog).1
  · intro occ q msg hq hlog
    cases hany : st.ro.anySent with
    | false =>
      rw [(inv.fresh hany).2.1] at hlog
      cases hlog
    | true =>
      obtain ⟨m, hm, hlen, hbuf⟩ := inv.carries hany q hq
      rw [hm] at hlog
      cases hlog
      exact ⟨occ hany q hq, hlen, hbuf⟩

/-- The walk of the freeing loop meets the slot of a number that stays in the window only from
`last_acknown`, a whole ring below a full window's upper end. -/
theorem walk_misses_iff {ro : ReliableOut} {f q : UInt16} (range : InRange ro f)
    (win : ro.unacked ≤ 32) (hq : InWindow (f - 1) ro.lastSent q) :
    (∀ r, (r - ro.lastAcknown).toNat < (f - ro.lastAcknown).toNat → slotFor r ≠ slotFor q) ↔
      (q - ro.lastAcknown).toNat ≠ 32 := by
  obtain ⟨⟨pos, le⟩, past⟩ := inWindow_acknack range win hq
  obtain ⟨h1, h2, -⟩ := acknack_distance range
  change (q - ro.lastAcknown).toNat ≤ ro.unacked at le
  constructor
  · intro miss full
    refine miss ro.lastAcknown (by rw [distance_self]; omega) ?_
    rw [eq_comm, slotFor_eq_iff, full]
    rfl
  · intro short r hr
    rw [ne_comm, Ne, slotFor_eq_iff]
    have h3 := distance_add q r ro.lastAcknown
    have h4 := toNat_lt (q - r)
    show ¬ (q - r).toNat % 32 = 0
    omega

/-- An ACKNACK in range keeps every message it does not acknowledge exactly when it finds room
in the ring or leaves nothing unacknowledged. -/
theorem retained_acknack {st : Sender} (inv : Inv st) (ret : st.Retained)
    (hany : st.ro.anySent = true) {f bitmap : UInt16} (range : InRange st.ro f) {t : Sender}
    (ht : t = { st with ro := st.ro.onAcknack f bitmap, acks := (f, bitmap) :: st.acks })
    (invt : Inv t) : t.Retained ↔ LeavesRoom st (.acknack f bitmap) := by
  have win : st.ro.unacked ≤ 32 := inv.window hany
  have occ := (retained_iff inv).mp ret hany
  have hro := onAcknack_of_sent hany f bitmap
  have key : t.Retained ↔
      ∀ q, InWindow (f - 1) st.ro.lastSent q → (q - st.ro.lastAcknown).toNat ≠ 32 := by
    rw [retained_iff invt, ht]
    simp only [hro, ReliableOut.freeUpTo_iff, hany, forall_const]
    refine forall_congr' fun q => imp_congr_right fun hq => ?_
    rw [← walk_misses_iff range win hq]
    exact and_iff_right (occ q (inWindow_acknack range win hq).1)
  rw [key]
  obtain ⟨h1, h2, h3⟩ := acknack_distance range
  have h5 := toNat_lt (st.ro.lastSent - (f - 1))
  constructor
  · intro short
    by_cases full : st.ro.unacked < 32
    · exact Or.inl full
    · refine Or.inr ?_
      -- a full window: nothing may be left in it, so `f - 1` is already `last_sent`
      have empty : ¬ 0 < (st.ro.lastSent - (f - 1)).toNat := fun pos =>
        short _ (InWindow.upper pos) (by show st.ro.unacked = 32; omega)
      have : st.ro.lastSent - (f - 1) = 0 := ext_toNat (by show _ = 0; omega)
      grind
  · rintro (room | rfl) q hq full
    · have le := (inWindow_acknack range win hq).1.2
      change (q - st.ro.lastAcknown).toNat ≤ st.ro.unacked at le
      change st.ro.unacked < 32 at room
      omega
    · obtain ⟨pos, le⟩ := hq
      have : st.ro.lastSent - (st.ro.lastSent + 1 - 1) = 0 := by grind
      rw [this] at le
      change _ ≤ 0 at le
      omega

theorem retained_step {st t : Sender} {a : Action} (inv : Inv st) (ret : st.Retained)
    (h : st.step a = some t) : t.Retained ↔ LeavesRoom st a := by
  have invt := inv_step inv h
  rcases step_cases h with ⟨msg, rfl, ok, rfl⟩ | ⟨msg, rfl, ok, rfl⟩ |
    ⟨f, bm, rfl, hany, range, ht⟩ | ⟨rfl, rfl⟩
  · rcases track_cases st.ro st.next msg with ⟨no, -⟩ | ⟨-, room, hro⟩
    · rw [ok] at no; cases no
    · refine iff_of_true ((retained_iff invt).mpr fun _ q hq => ?_) trivial
      simp only [hro] at hq ⊢
      rcases inWindow_track inv room hq with rfl | ⟨-, slot, hany, old⟩
      · simp
      · simpa [Function.update_apply, slot] using (retained_iff inv).mp ret hany q old
  · rcases track_cases st.ro st.next msg with ⟨-, hro⟩ | ⟨yes, -, -⟩
    · rw [hro]; exact iff_of_true ret trivial
    · rw [ok] at yes; cases yes
  · exact retained_acknack inv ret hany range ht invt
  · obtain ⟨-, -, hocc, hack, hsent, hany⟩ := st.ro.nextRetransmit_frame
    refine iff_of_true ((retained_iff invt).mpr ?_) trivial
    simpa only [hocc, hack, hsent, hany] using (retained_iff inv).mp ret

theorem retained_start (s : UInt16) : (start s).Retained := by
  intro q msg _ hlog
  cases hlog

/-- As long as every ACKNACK finds room in the ring, or acknowledges everything sent, no
unacknowledged message is lost; the first ACKNACK that does neither loses one at once. -/
theorem unacked_retained (s : UInt16) {st : Sender} (h : system.Reach LeavesRoom (start s) st) :
    st.Retained ∧ ∀ a t, st.step a = some t → (t.Retained ↔ LeavesRoom st a) := by
  have both : st.Retained ∧ Inv st := by
    refine h.invariant (I := fun st => st.Retained ∧ Inv st) ⟨retained_start s, inv_start s⟩ ?_
    rintro u a t ⟨ret, inv⟩ room hstep
    exact ⟨(retained_step inv ret hstep).mpr room, inv_step inv hstep⟩
  exact ⟨both.1, fun _ _ hstep => retained_step both.2 both.1 hstep⟩

/-- Two messages across the wrap, the first acknowledged. -/
theorem unacked_retained_wrap :
    ∃ st, system.run (start 0xFFFF) [.track [1], .track [2], .acknack 0 1] = some st ∧
      st.ro.unacked = 1 ∧ st.Retained := by
  obtain ⟨st, hrun, one⟩ : ∃ st, system.run (start 0xFFFF) [.track [1], .track [2],
      .acknack 0 1] = some st ∧ st.ro.unacked = 1 := ⟨_, rfl, by decide⟩
  refine ⟨st, hrun, one, (unacked_retained 0xFFFF (System.reach_of_run hrun ?_)).1⟩
  refine ⟨trivial, fun t ht => ?_⟩
  cases ht
  refine ⟨trivial, fun t ht => ?_⟩
  cases ht
  exact ⟨Or.inl (by decide), fun _ _ => trivial⟩

/-- With 32 messages outstanding an ACKNACK that acknowledges nothing frees the newest one. -/
theorem full_window_acknack_loses :
    ∃ st, system.run (start 0) (List.replicate 32 (.track [0xAA]) ++ [.acknack 0 1]) = some st ∧
      ¬ st.Retained := by
  refine ⟨_, rfl, fun ret => ?_⟩
  have stored := (ret 31 [0xAA] (by decide) (by rfl)).1
  -- slot 31 belongs to 31, sent last, and to 0xFFFF, where the freeing loop starts
  exact ((ReliableOut.freeUpTo_iff _ 0xFFFF 0 (slotFor 31)).mp stored).2 0xFFFF
    (by decide) (by decide)

/-! ## ACKNACKs that arrive again -/

/-- Processing this ACKNACK neither moves `last_acknown` back nor frees a stored message of the
window. -/
def Harmless (ro : ReliableOut) (f bitmap : UInt16) : Prop :=
  ¬ Behind (ro.onAcknack f bitmap).lastAcknown ro.lastAcknown ∧
    ∀ q, InWindow ro.lastAcknown ro.lastSent q → ro.occupied (slotFor q) = true →
      (ro.onAcknack f bitmap).occupied (slotFor q) = true

/-- The first number that is still unacknowledged is the only one in `1, …, last_acknown + 1`
whose ACKNACK leaves `last_acknown` where it is. -/
theorem behind_iff {ro : ReliableOut} {f : UInt16} (old : AtMost f (ro.lastAcknown + 1)) :
    Behind (f - 1) ro.lastAcknown ↔ f ≠ ro.lastAcknown + 1 := by
  have shift : ro.lastAcknown - (f - 1) = ro.lastAcknown + 1 - f := by grind
  unfold Behind AtMost at *
  rw [shift, and_iff_left old, not_iff_not]
  constructor <;> intro h <;> grind

/-- One turn of the freeing loop empties the slot of `last_acknown`. -/
theorem free_one_iff {ro : ReliableOut} (win : ro.unacked ≤ 32) :
    (∀ q, InWindow ro.lastAcknown ro.lastSent q → ro.occupied (slotFor q) = true →
      ReliableOut.freeUpTo ro.occupied ro.lastAcknown (ro.lastAcknown + 1) (slotFor q) = true) ↔
    (ro.unacked < 32 ∨ ro.occupied (slotFor ro.lastSent) = false) := by
  have range : InRange ro (ro.lastAcknown + 1) := by simp [InRange]
  have low : ro.lastAcknown + 1 - 1 = ro.lastAcknown := by grind
  have misses : ∀ q, InWindow ro.lastAcknown ro.lastSent q → _ := fun q hq =>
    walk_misses_iff range win (q := q) (by rwa [low])
  simp only [ReliableOut.freeUpTo_iff]
  constructor
  · intro keep
    by_cases full : ro.unacked < 32
    · exact Or.inl full
    · refine Or.inr (Bool.eq_false_iff.mpr fun occ => ?_)
      have top : InWindow ro.lastAcknown ro.lastSent ro.lastSent :=
        InWindow.upper (by show 0 < ro.unacked; omega)
      exact (misses _ top).mp (keep _ top occ).2 (by show ro.unacked = 32; omega)
  · intro room q hq occ
    refine ⟨occ, (misses q hq).mpr fun far => ?_⟩
    have le : (q - ro.lastAcknown).toNat ≤ ro.unacked := hq.2
    rcases room with room | empty
    · omega
    · have top : q = ro.lastSent := by
        have : q - ro.lastAcknown = ro.lastSent - ro.lastAcknown :=
          ext_toNat (by show _ = ro.unacked; omega)
        grind
      rw [← top, occ] at empty
      cases empty

/-- A processed ACKNACK can come again without harm exactly when nothing newer has been
acknowledged since and the newest message does not sit in the slot of `last_acknown`. -/
theorem stale_acknack_harmless (s : UInt16) {st : Sender} (h : system.Reachable (start s) st)
    {f bitmap : UInt16} (seen : (f, bitmap) ∈ st.acks) (old : AtMost f (st.ro.lastAcknown + 1)) :
    Harmless st.ro f bitmap ↔
      f = st.ro.lastAcknown + 1 ∧
        (st.ro.unacked < reliableWindow ∨ st.ro.occupied (slotFor st.ro.lastSent) = false) := by
  have inv := inv_of_reach h
  have hany : st.ro.anySent = true := by
    cases hany : st.ro.anySent with
    | true => rfl
    | false =>
      rw [(inv.fresh hany).2.2] at seen
      cases seen
  unfold Harmless
  rw [onAcknack_of_sent hany]
  simp only [behind_iff old, not_not]
  refine and_congr_right fun hf => ?_
  rw [hf]
  exact free_one_iff (inv.window hany)

/-- A repeated ACKNACK for two outstanding messages. -/
theorem stale_acknack_harmless_repeat :
    ∃ st, system.run (start 7) [.track [1], .track [2], .acknack 7 1] = some st ∧
      Harmless st.ro 7 1 := by
  obtain ⟨st, hrun, seen, old, same, room⟩ : ∃ st,
      system.run (start 7) [.track [1], .track [2], .acknack 7 1] = some st ∧
      (7, 1) ∈ st.acks ∧ AtMost 7 (st.ro.lastAcknown + 1) ∧ 7 = st.ro.lastAcknown + 1 ∧
      st.ro.unacked < reliableWindow :=
    ⟨_, rfl, List.mem_cons_self .., by decide, by decide, by decide⟩
  exact ⟨st, hrun, (stale_acknack_harmless 7 (System.reachable_of_run hrun) seen old).mpr
    ⟨same, Or.inl room⟩⟩

/-- A delayed ACKNACK takes `last_acknown` from 2 back to 0 and frees the outstanding message 3. -/
theorem delayed_acknack_harms :
    ∃ st, system.run (start 0) [.track [1], .track [2], .track [3], .track [4],
        .acknack 1 1, .acknack 3 0] = some st ∧
      (1, 1) ∈ st.acks ∧ AtMost 1 (st.ro.lastAcknown + 1) ∧
      InWindow st.ro.lastAcknown st.ro.lastSent 3 ∧ st.ro.occupied (slotFor 3) = true ∧
      Behind (st.ro.onAcknack 1 1).lastAcknown st.ro.lastAcknown ∧
      (st.ro.onAcknack 1 1).occupied (slotFor 3) = false := by
  refine ⟨_, rfl, by decide, by decide, by decide, ?_, by decide, ?_⟩
  · show ReliableOut.freeUpTo (ReliableOut.freeUpTo _ 0xFFFF 1) 0 3 (slotFor 3) = true
    rw [ReliableOut.freeUpTo_ahead _ (by decide) (by decide),
      ReliableOut.freeUpTo_ahead _ (by decide) (by decide)]
    rfl
  · refine Bool.eq_false_iff.mpr fun occ => ?_
    -- the walk from 2 wraps around to 1 and passes every slot on the way
    exact ((ReliableOut.freeUpTo_iff _ 2 1 (slotFor 3)).mp occ).2 3 (by decide) rfl

/-! ## The window -/

/-- How many messages are unacknowledged; before the first one `last_sent` means nothing. -/
def outstanding (st : Sender) : Nat := if st.ro.anySent then st.ro.unacked else 0

/-- What the window is for: it never outgrows the ring, the next message is refused exactly when it
is full, a refusal changes nothing, and a message goes to a slot no unacknowledged one is in. -/
structure Disciplined (st : Sender) : Prop where
  window : st.ro.anySent = true → st.ro.unacked ≤ reliableWindow
  refused : ∀ msg : Bytes, msg.length ≤ reliableMsgMax →
    ((st.ro.track st.next msg).1 = false ↔ st.outstanding = reliableWindow)
  unchanged : ∀ msg, (st.ro.track st.next msg).1 = false → (st.ro.track st.next msg).2 = st.ro
  apart : ∀ msg, (st.ro.track st.next msg).1 = true → st.ro.anySent = true →
    ∀ q, InWindow st.ro.lastAcknown st.ro.lastSent q →
      slotFor q ≠ slotFor st.next ∧
      (st.ro.track st.next msg).2.buf (slotFor q) = st.ro.buf (slotFor q) ∧
      (st.ro.track st.next msg).2.len (slotFor q) = st.ro.len (slotFor q) ∧
      (st.ro.track st.next msg).2.occupied (slotFor q) = st.ro.occupied (slotFor q)

/-- The test of `track` on the next number, in terms of the window. -/
theorem room_iff {st : Sender} (inv : Inv st) (hany : st.ro.anySent = true) :
    (st.next - st.ro.lastAcknown).toNat ≤ reliableWindow ↔ st.ro.unacked < reliableWindow := by
  have hwin : (st.ro.lastSent - st.ro.lastAcknown).toNat ≤ 32 := inv.window hany
  have hsucc := distance_succ st.ro.lastSent st.ro.lastAcknown
  rw [inv.next_eq hany, hsucc]
  change (1 + (st.ro.lastSent - st.ro.lastAcknown).toNat) % 65536 ≤ 32 ↔
    (st.ro.lastSent - st.ro.lastAcknown).toNat < 32
  omega

theorem track_refused_iff {st : Sender} (inv : Inv st) {msg : Bytes}
    (short : msg.length ≤ reliableMsgMax) :
    (st.ro.track st.next msg).1 = false ↔ st.outstanding = reliableWindow := by
  unfold ReliableOut.track outstanding
  rw [if_neg (Nat.not_lt.mpr short)]
  cases hany : st.ro.anySent with
  | false => simp
  | true =>
    have hroom := room_iff inv hany
    have hwin := inv.window hany
    rw [if_pos rfl]
    by_cases hfull : (st.next - st.ro.lastAcknown).toNat > reliableWindow
    · rw [if_pos ⟨rfl, hfull⟩]
      simp only [true_iff]
      omega
    · rw [if_neg (fun h => hfull h.2)]
      simp only [Bool.true_eq_false, false_iff]
      exact Nat.ne_of_lt (hroom.mp (Nat.not_lt.mp hfull))

/-- Every run keeps to the window, through any number of wraps of the sequence number. -/
theorem window_disciplined (s : UInt16) {st : Sender} (h : system.Reachable (start s) st) :
    Disciplined st := by
  have inv := inv_of_reach h
  refine ⟨inv.window, fun msg short => track_refused_iff inv short, fun msg hno => ?_,
    fun msg hyes hany q hq => ?_⟩
  · rcases track_cases st.ro st.next msg with ⟨-, hsame⟩ | ⟨hyes, -⟩
    · exact hsame
    · rw [hno] at hyes
      cases hyes
  · rcases track_cases st.ro st.next msg with ⟨hno, -⟩ | ⟨-, room, hro⟩
    · rw [hyes] at hno
      cases hno
    · have hnext := inv.next_eq hany
      have hslot : slotFor q ≠ slotFor st.next :=
        hnext ▸ slotFor_ne_next (inv.window hany) (hnext ▸ room hany) hq
      refine ⟨hslot, ?_, ?_, ?_⟩ <;> rw [hro] <;> exact Function.update_of_ne hslot ..

/-- A full window across the wrap refuses the next message. -/
theorem window_disciplined_wrap :
    ∃ st, system.run (start 0xFFF0) (List.replicate 33 (.track [0xAA])) = some st ∧
      Disciplined st ∧ st.outstanding = reliableWindow := by
  obtain ⟨st, hrun, hfull⟩ : ∃ st, system.run (start 0xFFF0)
      (List.replicate 33 (.track [0xAA])) = some st ∧ st.outstanding = reliableWindow :=
    ⟨_, rfl, by decide⟩
  exact ⟨st, hrun, window_disciplined 0xFFF0 (System.reachable_of_run hrun), hfull⟩

end Sender

end RtosXrce.Xrce
