import RtosXrce.Xrce.ReliableRuns

/-!
# Retransmit sweeps and fresh windows

A caller answers a NACK by calling `xrce_reliable_out_next_retransmit` until it returns `false`.
`retransmitAll` is that loop; it hands out the occupied slots of `cursor + 1, …, last_sent` in the
order of their numbers and touches nothing but the cursor, the counter and the sweep flag.

`xrce_reliable_out_init` leaves `last_acknown` at 0, and the first `track` is not tested against it.
`fresh` follows a stream from there, with no ACKNACK in between.
-/

namespace RtosXrce.Xrce

open Library

namespace ReliableOut

/-- Each message handed out brings the cursor closer to `last_sent`. -/
theorem sweep_progress (ro : ReliableOut) {msg : Bytes × Nat} (h : ro.sweep.2 = some msg) :
    (ro.sweep.1.lastSent - ro.sweep.1.retransmitCursor).toNat <
      (ro.lastSent - ro.retransmitCursor).toNat := by
  fun_induction sweep ro with
  | case1 ro stop => cases h
  | case2 ro walk slot hocc =>
    have dist := distance_walk walk
    simp only
    omega
  | case3 ro walk slot hocc ih =>
    have dist := distance_walk walk
    have rest := ih h
    simp only at rest
    omega

theorem nextRetransmit_progress (ro : ReliableOut) {msg : Bytes × Nat}
    (h : ro.nextRetransmit.2 = some msg) :
    (ro.nextRetransmit.1.lastSent - ro.nextRetransmit.1.retransmitCursor).toNat <
      (ro.lastSent - ro.retransmitCursor).toNat := by
  unfold nextRetransmit at h ⊢
  split at h
  next lost => simpa only [lost, if_true] using ro.sweep_progress h
  next => cases h

/-- Call `xrce_reliable_out_next_retransmit` until it returns `false`; the messages are the
`out_len` bytes behind each `out_msg`. -/
def retransmitAll (ro : ReliableOut) : ReliableOut × List Bytes :=
  match _h : ro.nextRetransmit.2 with
  | none => (ro.nextRetransmit.1, [])
  | some (buf, len) =>
    let rest := retransmitAll ro.nextRetransmit.1
    (rest.1, buf.take len :: rest.2)
termination_by (ro.lastSent - ro.retransmitCursor).toNat
decreasing_by exact ro.nextRetransmit_progress _h

theorem retransmitAll_of_none {ro ro' : ReliableOut} (h : ro.nextRetransmit = (ro', none)) :
    ro.retransmitAll = (ro', []) := by
  unfold retransmitAll
  split
  next => rw [h]
  next buf len some => simp [h] at some

theorem retransmitAll_of_some {ro ro' : ReliableOut} {buf : Bytes} {len : Nat}
    (h : ro.nextRetransmit = (ro', some (buf, len))) :
    ro.retransmitAll = (ro'.retransmitAll.1, buf.take len :: ro'.retransmitAll.2) := by
  rw [retransmitAll]
  split
  next none => simp [h] at none
  next b l some =>
    simp only [h, Option.some.injEq, Prod.mk.injEq] at some
    obtain ⟨rfl, rfl⟩ := some
    rw [h]

/-- The message in the slot of `seq`. -/
def stored (ro : ReliableOut) (seq : UInt16) : Bytes :=
  (ro.buf (slotFor seq)).take (ro.len (slotFor seq))

/-- The numbers a sweep hands out: those after the cursor whose slot is occupied. -/
def pending (ro : ReliableOut) : List UInt16 :=
  (window ro.retransmitCursor ro.lastSent).filter fun q => ro.occupied (slotFor q)

theorem retransmitAll_idle {ro : ReliableOut} (idle : ro.sendLost = false) :
    ro.retransmitAll = (ro, []) :=
  retransmitAll_of_none (by simp [nextRetransmit, idle])

/-- An unoccupied slot only moves the cursor. -/
theorem retransmitAll_skip {ro : ReliableOut} (armed : ro.sendLost = true)
    (walk : ro.retransmitCursor ≠ ro.lastSent)
    (free : ro.occupied (slotFor (ro.retransmitCursor + 1)) = false) :
    ro.retransmitAll =
      { ro with retransmitCursor := ro.retransmitCursor + 1 }.retransmitAll := by
  have same : ro.nextRetransmit =
      { ro with retransmitCursor := ro.retransmitCursor + 1 }.nextRetransmit := by
    simp only [nextRetransmit, armed, if_true]
    rw [sweep]
    simp [walk, free, armed]
  cases h : ro.nextRetransmit with
  | mk ro' msg =>
    cases msg with
    | none => rw [retransmitAll_of_none h, retransmitAll_of_none (same.symm.trans h)]
    | some msg => rw [retransmitAll_of_some h, retransmitAll_of_some (same.symm.trans h)]

/-- The loop from an armed sweep: everything pending, in order, counted once each. -/
theorem retransmitAll_armed (ro : ReliableOut) (armed : ro.sendLost = true) :
    ro.retransmitAll =
      ({ ro with
          sendLost := false
          retransmitCursor := ro.lastSent
          retransmitCount := ro.retransmitCount + UInt32.ofNat ro.pending.length },
        ro.pending.map ro.stored) := by
  -- along the walk of the cursor: an occupied slot is one call, a free one is part of the next
  induction dist : (ro.lastSent - ro.retransmitCursor).toNat generalizing ro with
  | zero =>
    have stop : ro.retransmitCursor = ro.lastSent := by
      have : ro.lastSent - ro.retransmitCursor = 0 := ext_toNat dist
      grind
    have next : ro.nextRetransmit = ({ ro with sendLost := false }, none) := by
      simp only [nextRetransmit, armed, if_true]
      rw [sweep]
      simp [stop]
    rw [retransmitAll_of_none next]
    simp [pending, stop]
  | succ n ih =>
    have walk : ro.retransmitCursor ≠ ro.lastSent := by
      intro stop
      simp [stop] at dist
    have closer := distance_walk walk
    cases occ : ro.occupied (slotFor (ro.retransmitCursor + 1)) with
    | false =>
      have rest := ih { ro with retransmitCursor := ro.retransmitCursor + 1 } armed
        (by simp only; omega)
      rw [retransmitAll_skip armed walk occ, rest]
      simp [pending, window_walk walk, occ, stored]
    | true =>
      have next : ro.nextRetransmit = ({ ro with
          retransmitCursor := ro.retransmitCursor + 1
          retransmitCount := ro.retransmitCount + 1 },
          some (ro.buf (slotFor (ro.retransmitCursor + 1)),
            ro.len (slotFor (ro.retransmitCursor + 1)))) := by
        simp only [nextRetransmit, armed, if_true]
        rw [sweep]
        simp [walk, occ, armed]
      have rest := ih { ro with
          retransmitCursor := ro.retransmitCursor + 1
          retransmitCount := ro.retransmitCount + 1 } armed (by simp only; omega)
      rw [retransmitAll_of_some next, rest]
      simp [pending, window_walk walk, occ, stored]
      grind

/-- The numbers of `first_unacked, …, last_sent` that are still stored after the ACKNACK. -/
def keptFrom (ro : ReliableOut) (firstUnacked bitmap : UInt16) : List UInt16 :=
  (window (firstUnacked - 1) ro.lastSent).filter fun q =>
    (ro.onAcknack firstUnacked bitmap).occupied (slotFor q)

/-- After an ACKNACK in range with a nonzero bitmap the loop hands out every message that is still
stored, once, in the order of the numbers and with its own bytes, and changes nothing but the
cursor, the counter and the sweep flag; a zero bitmap hands out nothing. -/
theorem retransmit_sweep {ro : ReliableOut} {messages : UInt16 → Bytes}
    (sent : ro.anySent = true) (win : ro.unacked ≤ reliableWindow)
    (carries : ∀ q, InWindow ro.lastAcknown ro.lastSent q → ro.occupied (slotFor q) = true →
      ro.Stored q (messages q))
    {f : UInt16} (range : Sender.InRange ro f) (bitmap : UInt16) :
    (bitmap ≠ 0 → (ro.onAcknack f bitmap).retransmitAll =
      ({ ro.onAcknack f bitmap with
          sendLost := false
          retransmitCursor := ro.lastSent
          retransmitCount := ro.retransmitCount + UInt32.ofNat (ro.keptFrom f bitmap).length },
        (ro.keptFrom f bitmap).map messages)) ∧
    (bitmap = 0 → (ro.onAcknack f bitmap).retransmitAll = (ro.onAcknack f bitmap, [])) := by
  have after := Sender.onAcknack_of_sent sent f bitmap
  have pending : (ro.onAcknack f bitmap).pending = ro.keptFrom f bitmap := by
    simp only [ReliableOut.pending, keptFrom, after]
  constructor
  · intro nack
    have armed : (ro.onAcknack f bitmap).sendLost = true := by simpa [after] using nack
    -- what a kept number's slot holds is its message: it was in the window before the ACKNACK
    have bytes : ∀ q ∈ ro.keptFrom f bitmap, (ro.onAcknack f bitmap).stored q = messages q := by
      intro q mem
      obtain ⟨inside, occ⟩ := List.mem_filter.mp mem
      have old := (Sender.inWindow_acknack range win (mem_window.mp inside)).1
      rw [after] at occ ⊢
      exact (carries q old ((freeUpTo_iff ..).mp occ).1).2.2
    rw [retransmitAll_armed _ armed, pending, List.map_congr_left bytes, after]
  · intro none
    have idle : (ro.onAcknack f bitmap).sendLost = false := by
      rw [after]
      simp [none]
    exact retransmitAll_idle idle

/-- Three messages across the wrap, the first acknowledged and the others asked for again. -/
theorem retransmit_sweep_wrap :
    ∃ ro : ReliableOut, ro.lastAcknown = 0xFFFD ∧ ro.lastSent = 0 ∧
      (ro.onAcknack 0xFFFF 1).retransmitAll.2 = [[2], [3]] := by
  obtain ⟨st, hrun, hack, hsent, hany, hlog⟩ : ∃ st, Sender.system.run (Sender.start 0xFFFE)
      [.track [1], .track [2], .track [3]] = some st ∧ st.ro.lastAcknown = 0xFFFD ∧
      st.ro.lastSent = 0 ∧ st.ro.anySent = true ∧
      st.log = [(0, [3]), (0xFFFF, [2]), (0xFFFE, [1])] :=
    ⟨_, rfl, by decide, by decide, by decide, by decide⟩
  have inv := Sender.inv_of_reach (System.reachable_of_run hrun)
  have occ : ∀ q ∈ [0xFFFF, 0], st.ro.occupied (slotFor q) = true := by
    cases hrun
    exact List.forall_mem_cons.mpr ⟨by decide, List.forall_mem_singleton.mpr (by decide)⟩
  have kept : st.ro.keptFrom 0xFFFF 1 = [0xFFFF, 0] := by
    unfold keptFrom
    have two : window (0xFFFF - 1) 0 = [0xFFFF, 0] := by decide
    rw [Sender.onAcknack_of_sent hany, hsent, hack, two]
    refine List.filter_eq_self.mpr fun q hq => ?_
    change freeUpTo st.ro.occupied 0xFFFD 0xFFFF (slotFor q) = true
    have far : (q - 0xFFFD).toNat = 2 ∨ (q - 0xFFFD).toNat = 3 := by
      rcases List.mem_pair.mp hq with rfl | rfl <;> decide
    rw [freeUpTo_ahead _ (by change 2 ≤ _; omega) (by omega)]
    exact occ q hq
  have carries : ∀ q, InWindow st.ro.lastAcknown st.ro.lastSent q →
      st.ro.occupied (slotFor q) = true → st.ro.Stored q ((st.log.lookup q).getD []) := by
    intro q hq occ
    obtain ⟨msg, hmsg, hlen, hbuf⟩ := inv.carries hany q hq
    exact ⟨occ, by simpa [hmsg] using hlen, by simpa [hmsg] using hbuf⟩
  have range : Sender.InRange st.ro 0xFFFF := by
    unfold Sender.InRange ReliableOut.unacked
    rw [hack, hsent]
    decide
  refine ⟨st.ro, hack, hsent, ?_⟩
  rw [(retransmit_sweep hany (inv.window hany) carries range 1).1 (by decide), kept, hlog]
  rfl

/-! ## A fresh stream -/

/-- The stream after `xrce_reliable_out_init` and `n` calls of `track` with the consecutive numbers
`s, s + 1, …`. -/
def fresh (s : UInt16) (messages : Nat → Bytes) : Nat → ReliableOut
  | 0 => init
  | n + 1 => ((fresh s messages n).track (s + UInt16.ofNat n) (messages n)).2

/-- The return value of call `n`, counted from 0. -/
def freshAccepts (s : UInt16) (messages : Nat → Bytes) (n : Nat) : Bool :=
  ((fresh s messages n).track (s + UInt16.ofNat n) (messages n)).1

/-- The first 32 messages are accepted, the next one is refused, and the 32 are stored. -/
def FreshWindow (s : UInt16) (messages : Nat → Bytes) : Prop :=
  (∀ n < reliableWindow, freshAccepts s messages n = true) ∧
    freshAccepts s messages reliableWindow = false ∧
    ∀ n < reliableWindow,
      (fresh s messages (reliableWindow + 1)).Stored (s + UInt16.ofNat n) (messages n)

theorem toNat_one_add {i : Nat} (le : i ≤ reliableWindow) : (1 + UInt16.ofNat i).toNat = 1 + i := by
  change i ≤ 32 at le
  have small : (UInt16.ofNat i).toNat = i :=
    UInt16.toNat_ofNat_of_lt' (by change i < 65536; omega)
  rw [toNat_add_eq, small]
  change (1 + i) % 65536 = 1 + i
  omega

theorem fresh_lastAcknown (s : UInt16) (messages : Nat → Bytes) (n : Nat) :
    (fresh s messages n).lastAcknown = 0 := by
  induction n with
  | zero => rfl
  | succ n ih =>
    rcases Sender.track_cases (fresh s messages n) (s + UInt16.ofNat n) (messages n) with
      ⟨-, same⟩ | ⟨-, -, accepted⟩
    · rw [fresh, same, ih]
    · rw [fresh, accepted, ih]

section

variable {messages : Nat → Bytes} (short : ∀ n, (messages n).length ≤ reliableMsgMax)
include short

theorem fresh_anySent (s : UInt16) (n : Nat) : (fresh s messages (n + 1)).anySent = true := by
  induction n with
  | zero => simp [fresh, track, init, Nat.not_lt.mpr (short 0)]
  | succ n ih =>
    rcases Sender.track_cases (fresh s messages (n + 1)) (s + UInt16.ofNat (n + 1))
      (messages (n + 1)) with ⟨-, same⟩ | ⟨-, -, accepted⟩
    · rw [fresh, same, ih]
    · rw [fresh, accepted]

/-- The first call is accepted whatever its number; a later one when its number, taken as the
distance from the initial `last_acknown`, lies within the ring. -/
theorem freshAccepts_iff (s : UInt16) (n : Nat) :
    freshAccepts s messages n = true ↔ n = 0 ∨ (s + UInt16.ofNat n).toNat ≤ reliableWindow := by
  unfold freshAccepts track
  rw [if_neg (Nat.not_lt.mpr (short n)), fresh_lastAcknown]
  cases n with
  | zero => simp [fresh, init]
  | succ n =>
    rw [fresh_anySent short s n]
    by_cases far : (s + UInt16.ofNat (n + 1) - 0).toNat > reliableWindow
    · rw [if_pos ⟨rfl, far⟩]
      simpa using far
    · rw [if_neg fun h => far h.2]
      simpa using far

/-- From number 1 on, each accepted message joins the ones before it. -/
theorem fresh_stored {n : Nat} (le : n ≤ reliableWindow) :
    ∀ i < n, (fresh 1 messages n).Stored (1 + UInt16.ofNat i) (messages i) := by
  induction n with
  | zero => simp
  | succ n ih =>
    have yes : freshAccepts 1 messages n = true :=
      (freshAccepts_iff short 1 n).mpr (Or.inr (by rw [toNat_one_add (by omega)]; omega))
    rcases Sender.track_cases (fresh 1 messages n) (1 + UInt16.ofNat n) (messages n) with
      ⟨no, -⟩ | ⟨-, -, accepted⟩
    · rw [freshAccepts, no] at yes
      cases yes
    · intro i hi
      rw [fresh, accepted]
      rcases Nat.lt_succ_iff_lt_or_eq.mp hi with old | rfl
      · have apart : slotFor (1 + UInt16.ofNat i) ≠ slotFor (1 + UInt16.ofNat n) := by
          change n + 1 ≤ 32 at le
          have hi := toNat_one_add (i := i) (by change i ≤ 32; omega)
          have hn := toNat_one_add (i := n) (by change n ≤ 32; omega)
          simp only [slotFor, ne_eq, Fin.mk.injEq, hi, hn]
          change ¬ (1 + i) % 32 = (1 + n) % 32
          omega
        simpa [Stored, Function.update_apply, apart] using ih (by omega) i old
      · simp [Stored]

/-- A stream has its full window from the start exactly when its first number is 1. -/
theorem freshWindow_iff (s : UInt16) : FreshWindow s messages ↔ s = 1 := by
  have last := toNat_add_eq (s + 31) 1
  have top : s + 31 + 1 = s + 32 := by grind
  rw [top] at last
  constructor
  · rintro ⟨yes, no, -⟩
    have near := (freshAccepts_iff short s 31).mp (yes 31 (by decide))
    have far := (freshAccepts_iff short s 32).not.mp (by simp [no])
    change 31 = 0 ∨ (s + 31).toNat ≤ 32 at near
    change ¬ (32 = 0 ∨ (s + 32).toNat ≤ 32) at far
    change (s + 32).toNat = ((s + 31).toNat + 1) % 65536 at last
    have : s + 31 = 32 := ext_toNat (by change _ = 32; omega)
    grind
  · rintro rfl
    have no : freshAccepts 1 messages reliableWindow = false :=
      Bool.eq_false_iff.mpr ((freshAccepts_iff short 1 reliableWindow).not.mpr (by decide))
    refine ⟨fun n hn => ?_, no, fun n hn => ?_⟩
    · refine (freshAccepts_iff short 1 n).mpr (Or.inr ?_)
      rw [toNat_one_add (Nat.le_of_lt hn)]
      omega
    · have refused : fresh 1 messages (reliableWindow + 1) = fresh 1 messages reliableWindow := by
        rcases Sender.track_cases (fresh 1 messages reliableWindow)
          (1 + UInt16.ofNat reliableWindow) (messages reliableWindow) with ⟨-, same⟩ | ⟨yes, -⟩
        · rw [fresh, same]
        · rw [freshAccepts, yes] at no
          cases no
      rw [refused]
      exact fresh_stored short le_rfl n hn

end

theorem freshWindow_iff_byte : FreshWindow 1 fun _ => [0xAA] :=
  (freshWindow_iff (fun _ => by decide) 1).mpr rfl

/-- From number 0, where a session starts, a 33rd message is accepted into the slot of the first. -/
theorem fresh_window_from_zero_overfills : ¬ FreshWindow 0 fun _ => [0xAA] := by
  intro full
  have accepted : freshAccepts 0 (fun _ => [0xAA]) reliableWindow = true :=
    (freshAccepts_iff (fun _ => by decide) 0 reliableWindow).mpr (Or.inr (by decide))
  rw [full.2.1] at accepted
  cases accepted

end ReliableOut

end RtosXrce.Xrce
