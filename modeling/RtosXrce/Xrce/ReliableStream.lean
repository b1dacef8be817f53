import RtosXrce.Library.Bytes
import RtosXrce.Library.SequenceWindow

/-!
# The output reliable stream

`xrce/src/reliable_stream.c`: a ring of message slots indexed by sequence number, a window
between the last acknowledged and the last sent number, and a retransmit sweep over it. Both
`while` loops walk the 16-bit sequence space upwards until they meet their end, so they
terminate from every state.
-/

namespace RtosXrce.Xrce

open Library

/-- `XRCE_RELIABLE_WINDOW`. -/
abbrev reliableWindow : Nat := 32

/-- `XRCE_RELIABLE_MSG_MAX`. -/
abbrev reliableMsgMax : Nat := 256

/-- `xrce_reliable_out_t`. -/
structure ReliableOut where
  buf : Fin reliableWindow → Bytes
  len : Fin reliableWindow → Nat
  occupied : Fin reliableWindow → Bool
  lastAcknown : UInt16
  lastSent : UInt16
  anySent : Bool
  sendLost : Bool
  retransmitCursor : UInt16
  retransmitCount : UInt32

/-- `slot_for`. -/
def slotFor (seq : UInt16) : Fin reliableWindow :=
  ⟨seq.toNat % reliableWindow, Nat.mod_lt _ (by decide)⟩

theorem slotFor_eq_iff (x y : UInt16) :
    slotFor x = slotFor y ↔ (x - y).toNat % reliableWindow = 0 := by
  simpa [slotFor] using cell_eq_iff (n := reliableWindow) ⟨2048, rfl⟩ x y

namespace ReliableOut

/-- `xrce_reliable_out_init`: `memset` to zero. -/
def init : ReliableOut where
  buf _ := List.replicate reliableMsgMax 0
  len _ := 0
  occupied _ := false
  lastAcknown := 0
  lastSent := 0
  anySent := false
  sendLost := false
  retransmitCursor := 0
  retransmitCount := 0

/-- `xrce_reliable_out_track`; the Boolean is the C return value. -/
def track (ro : ReliableOut) (seq : UInt16) (msg : Bytes) : Bool × ReliableOut :=
  if msg.length > reliableMsgMax then (false, ro)
  else if ro.anySent ∧ (seq - ro.lastAcknown).toNat > reliableWindow then (false, ro)
  else
    let slot := slotFor seq
    (true, { ro with
      buf := Function.update ro.buf slot (memcpy (ro.buf slot) msg)
      len := Function.update ro.len slot msg.length
      occupied := Function.update ro.occupied slot true
      lastSent := seq
      anySent := true })

/-- The freeing loop of `xrce_reliable_out_on_acknack`: clear the slot of `seq`, advance, stop
at `firstUnacked`. -/
def freeUpTo (occupied : Fin reliableWindow → Bool) (seq firstUnacked : UInt16) :
    Fin reliableWindow → Bool :=
  if h : seq = firstUnacked then occupied
  else freeUpTo (Function.update occupied (slotFor seq) false) (seq + 1) firstUnacked
termination_by (firstUnacked - seq).toNat
decreasing_by have := distance_walk h; omega

/-- `xrce_reliable_out_on_acknack`. -/
def onAcknack (ro : ReliableOut) (firstUnacked bitmap : UInt16) : ReliableOut :=
  let ro := if ro.anySent then
      { ro with
        occupied := freeUpTo ro.occupied ro.lastAcknown firstUnacked
        lastAcknown := firstUnacked - 1 }
    else ro
  { ro with sendLost := bitmap != 0, retransmitCursor := ro.lastAcknown }

/-- The `while` loop of `xrce_reliable_out_next_retransmit`: the next occupied slot after the
cursor, as the buffer and length handed out, or the end of the sweep. -/
def sweep (ro : ReliableOut) : ReliableOut × Option (Bytes × Nat) :=
  if h : ro.retransmitCursor = ro.lastSent then ({ ro with sendLost := false }, none)
  else
    let slot := slotFor (ro.retransmitCursor + 1)
    if ro.occupied slot then
      ({ ro with
          retransmitCursor := ro.retransmitCursor + 1
          retransmitCount := ro.retransmitCount + 1 },
        some (ro.buf slot, ro.len slot))
    else sweep { ro with retransmitCursor := ro.retransmitCursor + 1 }
termination_by (ro.lastSent - ro.retransmitCursor).toNat
decreasing_by have := distance_walk h; omega

/-- `xrce_reliable_out_next_retransmit`; `none` is the C return value `false`. -/
def nextRetransmit (ro : ReliableOut) : ReliableOut × Option (Bytes × Nat) :=
  if ro.sendLost then ro.sweep else (ro, none)

/-! ## What each operation does to the window -/

/-- A slot survives the freeing loop unless the walk from `seq` passes a number of that slot. -/
theorem freeUpTo_iff (occupied : Fin reliableWindow → Bool) (seq firstUnacked : UInt16)
    (c : Fin reliableWindow) :
    freeUpTo occupied seq firstUnacked c = true ↔
      occupied c = true ∧
        ∀ q, (q - seq).toNat < (firstUnacked - seq).toNat → slotFor q ≠ c := by
  fun_induction freeUpTo occupied seq firstUnacked with
  | case1 occupied => simp
  | case2 occupied seq h ih =>
    rw [ih]
    have dist := distance_walk h
    have split : ∀ q : UInt16, q = seq ∨
        (q - seq).toNat = (q - (seq + 1)).toNat + 1 ∧ q ≠ seq := by
      intro q
      by_cases e : q = seq
      · exact Or.inl e
      · exact Or.inr ⟨(distance_walk (Ne.symm e)).symm, e⟩
    constructor
    · rintro ⟨occ, free⟩
      have ne : slotFor seq ≠ c := by
        rintro rfl
        simp at occ
      refine ⟨by simpa [Function.update_apply, Ne.symm ne] using occ, fun q hq => ?_⟩
      rcases split q with rfl | ⟨hd, -⟩
      · exact ne
      · exact free q (by omega)
    · rintro ⟨occ, free⟩
      have ne : slotFor seq ≠ c := free seq (by simp; omega)
      refine ⟨by simpa [Function.update_apply, Ne.symm ne] using occ, fun q hq => ?_⟩
      rcases split q with rfl | ⟨hd, -⟩
      · exact ne
      · exact free q (by omega)

/-- Less than a ring ahead of the walk's start, a number the walk stops before keeps its slot. -/
theorem freeUpTo_ahead (occupied : Fin reliableWindow → Bool) {seq firstUnacked q : UInt16}
    (past : (firstUnacked - seq).toNat ≤ (q - seq).toNat) (near : (q - seq).toNat < 32) :
    freeUpTo occupied seq firstUnacked (slotFor q) = occupied (slotFor q) := by
  have misses : ∀ r, (r - seq).toNat < (firstUnacked - seq).toNat → slotFor r ≠ slotFor q := by
    intro r hr
    rw [ne_comm, Ne, slotFor_eq_iff]
    have h3 := distance_add q r seq
    have h4 := toNat_lt (q - r)
    show ¬ (q - r).toNat % 32 = 0
    omega
  rw [Bool.eq_iff_iff, freeUpTo_iff]
  exact and_iff_left misses

/-- The sweep moves only the cursor, the counter and the sweep flag. -/
theorem sweep_frame (ro : ReliableOut) :
    ro.sweep.1.buf = ro.buf ∧ ro.sweep.1.len = ro.len ∧ ro.sweep.1.occupied = ro.occupied ∧
      ro.sweep.1.lastAcknown = ro.lastAcknown ∧ ro.sweep.1.lastSent = ro.lastSent ∧
      ro.sweep.1.anySent = ro.anySent := by
  fun_induction sweep ro with
  | case1 ro h => simp
  | case2 ro h slot hocc => simp
  | case3 ro h slot hocc ih => simpa using ih

theorem nextRetransmit_frame (ro : ReliableOut) :
    ro.nextRetransmit.1.buf = ro.buf ∧ ro.nextRetransmit.1.len = ro.len ∧
      ro.nextRetransmit.1.occupied = ro.occupied ∧
      ro.nextRetransmit.1.lastAcknown = ro.lastAcknown ∧
      ro.nextRetransmit.1.lastSent = ro.lastSent ∧
      ro.nextRetransmit.1.anySent = ro.anySent := by
  unfold nextRetransmit
  split
  · exact ro.sweep_frame
  · simp

end ReliableOut

end RtosXrce.Xrce
