import RtosXrce.Host.BenchQos

/-!
# Rounds in which nothing is lost

With at most 31 samples, and as long as no ACKNACK is overtaken by a later one, every message that
the agent has not acknowledged is still stored (`kept_of_reachable`). A round that the link lets
through then brings the agent all that was missing, and the next one ends the program.
-/

namespace RtosXrce.Host.BenchQos

open Library Xrce Xrce.Session

/-- An ACKNACK that is heard does not fall behind those heard before. -/
def InOrder (n : Net) : Action → Prop
  | .hear m => ∀ a ∈ parseAcknack (fun i => m.getD i 0) m.length,
    Sender.InRange n.bench.ro a.firstUnacked
  | _ => True

instance (n : Net) : (a : Action) → Decidable (InOrder n a)
  | .hear m => inferInstanceAs (Decidable (∀ a ∈ parseAcknack _ m.length, _))
  | .advance | .timeUp | .arrive _ | .acknowledge .. => isTrue trivial

theorem toNat_ofNat_sub {a b : Nat} (hab : b ≤ a) (ha : a < 2 ^ 16) :
    (UInt16.ofNat a - UInt16.ofNat b).toNat = a - b := by
  have hb : b < 2 ^ 16 := Nat.lt_of_le_of_lt hab ha
  rw [toNat_sub_eq, UInt16.toNat_ofNat_of_lt' ha, UInt16.toNat_ofNat_of_lt' hb]
  omega

theorem sub_pred (x y : UInt16) : x - (y - 1) = x + 1 - y := by grind

/-! ## What is stored -/

/-- The stream of the program is that of a sender that has accepted every message, and whose
ACKNACKs have all found room in the ring. -/
structure Keeps (session : Session) (writer : ObjectId) (count : Nat) (n : Net) (st : Sender) :
    Prop where
  reach : Sender.system.Reach Sender.LeavesRoom (Sender.start relStartSeq) st
  ro : st.ro = n.bench.ro
  next : st.next = UInt16.ofNat (n.bench.pc.published count)
  anySent : n.bench.ro.anySent = true ↔ 0 < n.bench.pc.published count
  log : ∀ k < n.bench.pc.published count,
    st.log.lookup (UInt16.ofNat k) = some (datagram session writer k)
  early : ∀ i, n.bench.pc = .publishing i → n.bench.ro.lastAcknown = relStartSeq - 1

section Keeps

variable {session : Session} {writer : ObjectId} {count : Nat} {n : Net} {st : Sender}

theorem keeps_start (session : Session) (writer : ObjectId) (count : Nat) :
    Keeps session writer count (.start session) (Sender.start relStartSeq) where
  reach := .refl
  ro := rfl
  next := rfl
  anySent := iff_of_false Bool.false_ne_true (Nat.lt_irrefl 0)
  log k hk := absurd hk (Nat.not_lt_zero k)
  early _ _ := rfl

theorem retained_of_reach {s : UInt16}
    (h : Sender.system.Reach Sender.LeavesRoom (Sender.start s) st) : st.Retained := by
  refine (h.invariant (I := fun st => st.Retained ∧ Sender.Inv st)
    ⟨Sender.retained_start s, Sender.inv_start s⟩ ?_).1
  rintro u a t ⟨hretained, inv⟩ room hstep
  exact ⟨(Sender.retained_step inv hretained hstep).mpr room, Sender.inv_step inv hstep⟩

/-- A move of the program that leaves its stream alone. -/
theorem Keeps.of_ro (h : Keeps session writer count n st) {n' : Net}
    (hro : n'.bench.ro = n.bench.ro)
    (hpc : n'.bench.pc.published count = n.bench.pc.published count)
    (hearly : ∀ i, n'.bench.pc = .publishing i → n.bench.pc = .publishing i) :
    Keeps session writer count n' st where
  reach := h.reach
  ro := hro ▸ h.ro
  next := hpc ▸ h.next
  anySent := hro ▸ hpc ▸ h.anySent
  log := hpc ▸ h.log
  early i hi := hro ▸ h.early i (hearly i hi)

theorem track_accepts {ro : ReliableOut} {seq : UInt16} {msg : Bytes}
    (hlen : msg.length ≤ reliableMsgMax) (room : (seq - ro.lastAcknown).toNat ≤ reliableWindow) :
    (ro.track seq msg).1 = true := by
  rw [ReliableOut.track, if_neg (Nat.not_lt.mpr hlen), if_neg fun h => absurd h.2 (by omega)]

theorem Keeps.publish (h : Keeps session writer count n st) (few : count ≤ 31)
    (hd : Delivers session writer count n) {i : Nat} (hi : i < count)
    (hpc : n.bench.pc = .publishing i) :
    ∃ st', Keeps session writer count
      { n with bench := { n.bench.publish writer i with pc := .publishing (i + 1) } } st' := by
  have hpublished : n.bench.pc.published count = i := by rw [hpc]; rfl
  have hsession : n.bench.session = sessionAt session i := by rw [hd.session_eq, hpublished]
  have hnext : st.next = UInt16.ofNat i := hpublished ▸ h.next
  have hseq : n.bench.session.outSeqNum = UInt16.ofNat i := by rw [hsession]; rfl
  have hlast : n.bench.ro.lastAcknown = UInt16.ofNat 0 - 1 := h.early i hpc
  have hmsg := length_datagram session writer i
  have room : (UInt16.ofNat i - n.bench.ro.lastAcknown).toNat ≤ reliableWindow := by
    have hdistance : (UInt16.ofNat (i + 1) - UInt16.ofNat 0).toNat = i + 1 - 0 :=
      toNat_ofNat_sub (Nat.zero_le _) (by omega)
    rw [hlast, sub_pred, ← UInt16.ofNat_one, ← UInt16.ofNat_add, hdistance]
    exact show i + 1 ≤ 32 by omega
  have haccepts : (n.bench.ro.track (UInt16.ofNat i) (datagram session writer i)).1 = true :=
    track_accepts (by rw [hmsg]; decide) room
  have hstep : st.step (.track (datagram session writer i)) = some
      { st with
        ro := (n.bench.ro.track (UInt16.ofNat i) (datagram session writer i)).2
        next := st.next + 1
        log := (st.next, datagram session writer i) :: st.log } := by
    simp only [Sender.step, h.ro, hnext]
    rw [← Prod.eta (n.bench.ro.track _ _), haccepts]
  have htracked : (n.bench.ro.track (UInt16.ofNat i) (datagram session writer i)).2.lastAcknown =
      n.bench.ro.lastAcknown ∧
      (n.bench.ro.track (UInt16.ofNat i) (datagram session writer i)).2.anySent = true := by
    rcases Sender.track_cases n.bench.ro (UInt16.ofNat i) (datagram session writer i) with
      ⟨hrefused, -⟩ | ⟨-, -, hro⟩
    · rw [haccepts] at hrefused
      cases hrefused
    · rw [hro]
      exact ⟨rfl, rfl⟩
  refine ⟨_, h.reach.tail (a := .track (datagram session writer i)) trivial hstep, ?_, ?_, ?_, ?_,
    ?_⟩
  · simp only [BenchQos.publish, hsession, built_datagram]
    rfl
  · rw [hnext]
    exact (UInt16.ofNat_add i 1).symm
  · simp only [BenchQos.publish, hsession, built_datagram]
    exact iff_of_true htracked.2 (Nat.succ_pos i)
  · intro k hk
    rw [List.lookup_cons]
    by_cases hki : k = i
    · rw [hki, hnext, BEq.rfl]
    · have hk : k < i := by
        have hk : k < i + 1 := hk
        omega
      have hne : UInt16.ofNat k ≠ st.next := fun heq =>
        hki (ofNat_inj (by omega) (by omega) (heq.trans hnext))
      rw [beq_false_of_ne hne]
      exact h.log k (hpublished.symm ▸ hk)
  · intro j _
    simp only [BenchQos.publish, hsession, built_datagram]
    exact htracked.1.trans hlast

theorem Keeps.lastSent (h : Keeps session writer count n st)
    (hpublished : n.bench.pc.published count = count) (pos : 0 < count) :
    n.bench.ro.lastSent + 1 = UInt16.ofNat count := by
  have hany : n.bench.ro.anySent = true := h.anySent.mpr (hpublished.symm ▸ pos)
  have hnext := (Sender.inv_of_reach h.reach).next_eq (h.ro.symm ▸ hany)
  rw [h.next, h.ro, hpublished] at hnext
  exact hnext.symm

theorem Keeps.hear (h : Keeps session writer count n st) (few : count ≤ 31) (pos : 0 < count)
    (hd : Delivers session writer count n) {m : Bytes}
    (order : InOrder n (.hear m)) {b : BenchQos} (hstep : n.bench.hear m = some b) :
    ∃ st', Keeps session writer count { n with bench := b } st' := by
  cases hpc : n.bench.pc with
  | listening rounds got =>
    simp only [BenchQos.hear, hpc] at hstep
    cases hparse : parseAcknack (fun i => m.getD i 0) m.length with
    | none =>
      simp only [hparse] at hstep
      obtain rfl := Option.some.inj hstep
      exact ⟨st, h⟩
    | some a =>
      simp only [hparse] at hstep
      obtain rfl := Option.some.inj hstep
      have hpublished : n.bench.pc.published count = count := by rw [hpc]; rfl
      have hany : n.bench.ro.anySent = true := h.anySent.mpr (hpublished.symm ▸ pos)
      have range : Sender.InRange n.bench.ro a.firstUnacked := order a hparse
      have hlastSent := h.lastSent hpublished pos
      have room : n.bench.ro.unacked < reliableWindow := by
        obtain ⟨k, hk, hlast, -⟩ := hd.acknown
        rw [ReliableOut.unacked, hlast, sub_pred, hlastSent, toNat_ofNat_sub hk (by omega)]
        exact show count - k < 32 by omega
      have hack : st.step (.acknack a.firstUnacked a.bitmap) = some
          { st with
            ro := st.ro.onAcknack a.firstUnacked a.bitmap
            acks := (a.firstUnacked, a.bitmap) :: st.acks } :=
        if_pos ⟨h.ro.symm ▸ hany, h.ro.symm ▸ range⟩
      refine ⟨_, h.reach.tail (a := .acknack a.firstUnacked a.bitmap)
        (Or.inl (h.ro.symm ▸ room)) hack, ?_, ?_, ?_, ?_, ?_⟩
      · exact congrArg (·.onAcknack a.firstUnacked a.bitmap) h.ro
      · exact hpublished ▸ h.next
      · have hkept : (n.bench.ro.onAcknack a.firstUnacked a.bitmap).anySent = true := by
          rw [Sender.onAcknack_of_sent hany, hany]
        exact iff_of_true hkept pos
      · exact hpublished ▸ h.log
      · exact fun i hi => by cases hi
  | publishing i | round rounds | resending rounds | finished acked =>
    rw [BenchQos.hear, hpc] at hstep
    cases hstep

theorem Keeps.resend (h : Keeps session writer count n st) {rounds : Nat}
    (hpc : n.bench.pc = .resending rounds) {b : BenchQos}
    (hstep : n.bench.advance writer count = some b) :
    ∃ st', Keeps session writer count { n with bench := b } st' := by
  have hpublished : n.bench.pc.published count = count := by rw [hpc]; rfl
  obtain ⟨-, -, -, -, -, hany⟩ := n.bench.ro.nextRetransmit_frame
  have hmove : b.ro = n.bench.ro.nextRetransmit.1 ∧ b.pc.published count = count ∧
      ∀ i, b.pc ≠ .publishing i := by
    simp only [advance, hpc] at hstep
    split at hstep
    next ro msg len hnext =>
      obtain rfl := Option.some.inj hstep
      exact ⟨by rw [hnext], rfl, fun i hi => by cases hi⟩
    next ro hnext =>
      split at hstep
      all_goals
        obtain rfl := Option.some.inj hstep
        exact ⟨by rw [hnext], rfl, fun i hi => by cases hi⟩
  obtain ⟨hro, hcount, hearly⟩ := hmove
  have hsweep : st.step .retransmit = some { st with ro := st.ro.nextRetransmit.1 } := rfl
  refine ⟨_, h.reach.tail (a := .retransmit) trivial hsweep, ?_, ?_, ?_, ?_, ?_⟩
  · exact (congrArg (·.nextRetransmit.1) h.ro).trans hro.symm
  · exact hcount.symm ▸ hpublished ▸ h.next
  · rw [hro, hany, hcount, ← hpublished]
    exact h.anySent
  · exact hcount.symm ▸ hpublished ▸ h.log
  · exact fun i hi => absurd hi (hearly i)

theorem Keeps.advance (h : Keeps session writer count n st) (few : count ≤ 31)
    (hd : Delivers session writer count n) {b : BenchQos}
    (hstep : n.bench.advance writer count = some b) :
    ∃ st', Keeps session writer count { n with bench := b } st' := by
  cases hpc : n.bench.pc with
  | publishing i =>
    simp only [BenchQos.advance, hpc] at hstep
    split at hstep
    case isTrue hi =>
      obtain rfl := Option.some.inj hstep
      exact h.publish few hd hi hpc
    case isFalse hi =>
      obtain rfl := Option.some.inj hstep
      have hle := hd.published_le
      rw [hpc] at hle
      have hcount : count = i := Nat.le_antisymm (Nat.not_lt.mp hi) hle
      exact ⟨st, h.of_ro rfl (by rw [hpc]; exact hcount) fun j hj => by cases hj⟩
  | round rounds =>
    simp only [BenchQos.advance, hpc] at hstep
    split at hstep
    all_goals
      obtain rfl := Option.some.inj hstep
      exact ⟨st, h.of_ro rfl (by rw [hpc]; rfl) fun j hj => by cases hj⟩
  | resending rounds => exact h.resend hpc hstep
  | listening rounds got | finished acked =>
    rw [BenchQos.advance, hpc] at hstep
    cases hstep

theorem Keeps.timeUp (h : Keeps session writer count n st) {b : BenchQos}
    (hstep : n.bench.timeUp = some b) : Keeps session writer count { n with bench := b } st := by
  cases hpc : n.bench.pc with
  | listening rounds got =>
    cases got with
    | true | false =>
      rw [BenchQos.timeUp, hpc] at hstep
      obtain rfl := Option.some.inj hstep
      exact h.of_ro rfl (by rw [hpc]; rfl) fun j hj => by cases hj
  | publishing i | round rounds | resending rounds | finished acked =>
    rw [BenchQos.timeUp, hpc] at hstep
    cases hstep

theorem Keeps.step (h : Keeps session writer count n st) (few : count ≤ 31) (pos : 0 < count)
    (hd : Delivers session writer count n) {n' : Net} {a : Action} (order : InOrder n a)
    (hstep : (net writer count).step n a = some n') : ∃ st', Keeps session writer count n' st' := by
  cases a with
  | advance =>
    obtain ⟨b, hb, rfl⟩ := Option.map_eq_some_iff.mp hstep
    exact h.advance few hd hb
  | hear m =>
    simp only [net] at hstep
    split at hstep
    case isTrue =>
      obtain ⟨b, hb, rfl⟩ := Option.map_eq_some_iff.mp hstep
      exact h.hear few pos hd order hb
    case isFalse => cases hstep
  | timeUp =>
    obtain ⟨b, hb, rfl⟩ := Option.map_eq_some_iff.mp hstep
    exact ⟨st, h.timeUp hb⟩
  | arrive m | acknowledge k bitmap =>
    simp only [net] at hstep
    split at hstep
    case isTrue =>
      obtain rfl := Option.some.inj hstep
      exact ⟨st, h.of_ro rfl rfl fun _ hi => hi⟩
    case isFalse => cases hstep

/-- As long as ACKNACKs come in order, the program has both: only what was published is on its way,
and all that is not acknowledged is stored. -/
theorem kept_of_reachable (few : count ≤ 31) (pos : 0 < count)
    (reach : (net writer count).Reach InOrder (.start session) n) :
    ∃ st, Keeps session writer count n st := by
  refine reach.invariant_with (I := fun n => ∃ st, Keeps session writer count n st)
    (J := Delivers session writer count) (fun n hn => ?_) ⟨_, keeps_start session writer count⟩ ?_
  · exact delivers_of_reachable (by omega) (hn.mono fun _ _ _ => trivial)
  · rintro n a n' hd ⟨st, h⟩ order hstep
    exact h.step few pos hd order hstep

/-- The messages that are not acknowledged are those of the window. -/
theorem Keeps.window (h : Keeps session writer count n st)
    (hpublished : n.bench.pc.published count = count) (few : count ≤ 31) {k j : Nat}
    (hlast : n.bench.ro.lastAcknown = UInt16.ofNat k - 1) (hk : k ≤ j) (hj : j < count) :
    InWindow n.bench.ro.lastAcknown n.bench.ro.lastSent (UInt16.ofNat j) := by
  have hhere : (UInt16.ofNat (j + 1) - UInt16.ofNat k).toNat = j + 1 - k :=
    toNat_ofNat_sub (by omega) (by omega)
  have hthere : (UInt16.ofNat count - UInt16.ofNat k).toNat = count - k :=
    toNat_ofNat_sub (by omega) (by omega)
  rw [InWindow, hlast, sub_pred, sub_pred, h.lastSent hpublished (by omega), ← UInt16.ofNat_one,
    ← UInt16.ofNat_add, hhere, hthere]
  omega

/-- They are stored. -/
theorem Keeps.stored (h : Keeps session writer count n st)
    (hpublished : n.bench.pc.published count = count) (few : count ≤ 31) {k j : Nat}
    (hlast : n.bench.ro.lastAcknown = UInt16.ofNat k - 1) (hk : k ≤ j) (hj : j < count) :
    n.bench.ro.Stored (UInt16.ofNat j) (datagram session writer j) := by
  have hwindow := h.window hpublished few hlast hk hj
  exact h.ro ▸ retained_of_reach h.reach _ _ (h.ro.symm ▸ hwindow) (h.log j (hpublished.symm ▸ hj))

end Keeps

/-! ## A round without loss -/

/-- The ACKNACK `m` says of each message before the `k`-th that it has arrived, and that some other
one is missing unless these are all. -/
structure Answers (count : Nat) (arrived : List Bytes) (k : Nat) (m : Bytes) (bitmap : UInt16) :
    Prop where
  parse : parseAcknack (fun i => m.getD i 0) m.length = some ⟨UInt16.ofNat k, bitmap⟩
  has : ∀ j < k, Has arrived j
  missing : k = count ∨ ¬ Has arrived k ∧ bitmap ≠ 0

/-- A round in which the agent's answer is heard and everything that is sent again arrives. -/
def Net.cleanRound (count : Nat) (n : Net) (k : Nat) (bitmap : UInt16) : Net :=
  match n.bench.pc with
  | .round rounds =>
    let b := n.bench.heartbeat
    let (ro, again) := (b.ro.onAcknack (UInt16.ofNat k) bitmap).retransmitAll
    let pc := if ro.lastAcknown = relStartSeq + UInt16.ofNat count - 1 then .finished true
      else .round (rounds + 1)
    { bench := { b with ro, pc, sent := b.sent ++ again }
      arrived := again.reverse ++ n.arrived
      acknacks := (UInt16.ofNat k, bitmap) :: n.acknacks }
  | _ => n

section Round

variable {writer : ObjectId} {count : Nat} {ok : Net → Action → Prop} {start n : Net}

/-- The loop that retransmits, with every datagram arriving as it is sent. -/
theorem reach_resending (quiet : ∀ n a, (∀ m, a ≠ .hear m) → ok n a) {rounds : Nat}
    (hpc : n.bench.pc = .resending rounds) (h : (net writer count).Reach ok start n) :
    (net writer count).Reach ok start
      { n with
        bench :=
          { n.bench with
            ro := n.bench.ro.retransmitAll.1
            pc := if n.bench.ro.retransmitAll.1.lastAcknown = relStartSeq + UInt16.ofNat count - 1
              then .finished true else .round (rounds + 1)
            sent := n.bench.sent ++ n.bench.ro.retransmitAll.2 }
        arrived := n.bench.ro.retransmitAll.2.reverse ++ n.arrived } := by
  obtain ⟨⟨session, ro, pc, sent⟩, arrived, acknacks⟩ := n
  obtain rfl : pc = .resending rounds := hpc
  dsimp only
  induction hsteps : (ro.lastSent - ro.retransmitCursor).toNat using Nat.strong_induction_on
    generalizing ro sent arrived with
  | _ steps ih =>
    cases hnext : ro.nextRetransmit with
    | mk ro' msg =>
      cases msg with
      | none =>
        rw [ReliableOut.retransmitAll_of_none hnext]
        refine h.tail (a := .advance) (quiet _ _ fun m hm => by cases hm) ?_
        simp only [net, advance, hnext]
        split <;> simp [*]
      | some msg =>
        obtain ⟨msg, len⟩ := msg
        have hprogress := ro.nextRetransmit_progress (congrArg Prod.snd hnext)
        rw [hnext, hsteps] at hprogress
        have hsent : (net writer count).Reach ok start
            ⟨⟨session, ro', .resending rounds, sent ++ [msg.take len]⟩, arrived, acknacks⟩ := by
          refine h.tail (a := .advance) (quiet _ _ fun m hm => by cases hm) ?_
          simp only [net, advance, hnext, Option.map_some]
        have harrives : (net writer count).Reach ok start
            ⟨⟨session, ro', .resending rounds, sent ++ [msg.take len]⟩, msg.take len :: arrived,
              acknacks⟩ := by
          refine hsent.tail (a := .arrive (msg.take len)) (quiet _ _ fun m hm => by cases hm) ?_
          simp [net]
        have hrest := ih _ hprogress (msg.take len :: arrived) ro' (sent ++ [msg.take len]) harrives
          rfl
        rw [ReliableOut.retransmitAll_of_some hnext]
        simpa using hrest

/-- Where a round stands when it has heard the answer. -/
def Net.heard (n : Net) (rounds k : Nat) (bitmap : UInt16) : Net where
  bench :=
    { n.bench.heartbeat with
      ro := n.bench.ro.onAcknack (UInt16.ofNat k) bitmap, pc := .listening rounds true }
  arrived := n.arrived
  acknacks := (UInt16.ofNat k, bitmap) :: n.acknacks

theorem reach_heard (quiet : ∀ n a, (∀ m, a ≠ .hear m) → ok n a) {rounds : Nat}
    (hpc : n.bench.pc = .round rounds) (hround : rounds < maxRounds) {k : Nat} {m : Bytes}
    {bitmap : UInt16} (answers : Answers count n.arrived k m bitmap)
    (order : ∀ n' : Net, n'.bench.ro = n.bench.ro → ok n' (.hear m))
    (h : (net writer count).Reach ok start n) :
    (net writer count).Reach ok start (n.heard rounds k bitmap) := by
  have hbeat := h.tail (a := .advance) (t := { n with
    bench := { n.bench.heartbeat with pc := .listening rounds false } })
    (quiet _ _ fun m hm => by cases hm) (by
    simp only [net, advance, hpc, hround, if_true, Option.map_some])
  have hacknowledge := hbeat.tail (a := .acknowledge k bitmap) (t :=
    { bench := { n.bench.heartbeat with pc := .listening rounds false }
      arrived := n.arrived
      acknacks := (UInt16.ofNat k, bitmap) :: n.acknacks })
    (quiet _ _ fun m hm => by cases hm) (by
    simp only [net]
    exact if_pos answers.has)
  refine hacknowledge.tail (a := .hear m) ?_ ?_
  · exact order _ rfl
  · have hfrom : FromAgent ((UInt16.ofNat k, bitmap) :: n.acknacks) m := by
      rw [FromAgent, answers.parse]
      simp
    simp only [net, hfrom, if_true, hear, answers.parse, Option.map_some]
    rfl

/-- A round without loss is a run of the program over the link. -/
theorem reach_cleanRound (quiet : ∀ n a, (∀ m, a ≠ .hear m) → ok n a) {rounds : Nat}
    (hpc : n.bench.pc = .round rounds) {k : Nat} {bitmap : UInt16}
    (h : (net writer count).Reach ok start (n.heard rounds k bitmap)) :
    (net writer count).Reach ok start (n.cleanRound count k bitmap) := by
  have htimeUp := h.tail (a := .timeUp) (t := { n.heard rounds k bitmap with
    bench := { (n.heard rounds k bitmap).bench with pc := .resending rounds } })
    (quiet _ _ fun m hm => by cases hm) rfl
  have hresent := reach_resending quiet rfl htimeUp
  simp only [Net.cleanRound, hpc]
  exact hresent

end Round

theorem lastAcknown_retransmitAll (ro : ReliableOut) :
    ro.retransmitAll.1.lastAcknown = ro.lastAcknown := by
  cases armed : ro.sendLost with
  | true => rw [ReliableOut.retransmitAll_armed ro armed]
  | false => rw [ReliableOut.retransmitAll_idle armed]

section CleanRounds

variable {session : Session} {writer : ObjectId} {count : Nat} {n : Net} {rounds k : Nat}
  {m : Bytes} {bitmap : UInt16}

/-- An answer to what has arrived does not fall behind the ACKNACKs heard before. -/
theorem Answers.inRange {st : Sender} (answers : Answers count n.arrived k m bitmap)
    (hd : Delivers session writer count n) (h : Keeps session writer count n st)
    (few : count ≤ 31) (pos : 0 < count) (hpc : n.bench.pc = .round rounds) :
    Sender.InRange n.bench.ro (UInt16.ofNat k) := by
  have hpublished : n.bench.pc.published count = count := by rw [hpc]; rfl
  obtain ⟨k₀, -, hlast, hacked⟩ := hd.acknown
  have hk : k ≤ count := hd.le_of_has (by omega) answers.has
  have hle : k₀ ≤ k := by
    rcases answers.missing with rfl | ⟨hmissing, -⟩
    · exact hd.le_of_has (by omega) hacked
    · by_contra hlt
      exact hmissing (hacked k (by omega))
  rw [Sender.InRange, ReliableOut.unacked, hlast, sub_pred, UInt16.sub_add_cancel,
    h.lastSent hpublished pos, toNat_ofNat_sub hle (by omega),
    toNat_ofNat_sub (by omega) (by omega)]
  omega

theorem Answers.inOrder {st : Sender} (answers : Answers count n.arrived k m bitmap)
    (hd : Delivers session writer count n) (h : Keeps session writer count n st)
    (few : count ≤ 31) (pos : 0 < count) (hpc : n.bench.pc = .round rounds) (n' : Net)
    (hro : n'.bench.ro = n.bench.ro) : InOrder n' (.hear m) := by
  intro a ha
  rw [answers.parse] at ha
  obtain rfl := Option.some.inj ha
  exact hro.symm ▸ answers.inRange hd h few pos hpc

theorem quiet_inOrder (n : Net) (a : Action) (ha : ∀ m, a ≠ .hear m) : InOrder n a := by
  cases a with
  | hear m => exact absurd rfl (ha m)
  | advance | timeUp | arrive | acknowledge => trivial

/-- After a round without loss the agent has every message. -/
theorem has_cleanRound {st : Sender} (hpc : n.bench.pc = .round rounds)
    (answers : Answers count n.arrived k m bitmap) (few : count ≤ 31)
    (hany : n.bench.ro.anySent = true)
    (h : Keeps session writer count (n.heard rounds k bitmap) st) :
    ∀ j < count, Has (n.cleanRound count k bitmap).arrived j := by
  intro j hj
  simp only [Net.cleanRound, hpc]
  by_cases hjk : j < k
  · obtain ⟨m', hm', hnumber⟩ := answers.has j hjk
    exact ⟨m', List.mem_append_right _ hm', hnumber⟩
  · obtain ⟨-, nack⟩ := answers.missing.resolve_left (by omega)
    have hack := Sender.onAcknack_of_sent hany (UInt16.ofNat k) bitmap
    have hlast : (n.bench.ro.onAcknack (UInt16.ofNat k) bitmap).lastAcknown =
        UInt16.ofNat k - 1 := by rw [hack]
    have hcursor : (n.bench.ro.onAcknack (UInt16.ofNat k) bitmap).retransmitCursor =
        (n.bench.ro.onAcknack (UInt16.ofNat k) bitmap).lastAcknown := by rw [hack]
    have armed : (n.bench.ro.onAcknack (UInt16.ofNat k) bitmap).sendLost = true := by
      rw [hack]
      simpa using nack
    have hwindow := h.window rfl few hlast (Nat.not_lt.mp hjk) hj
    obtain ⟨hoccupied, -, hstored⟩ := h.stored rfl few hlast (Nat.not_lt.mp hjk) hj
    have hpending : UInt16.ofNat j ∈ (n.bench.ro.onAcknack (UInt16.ofNat k) bitmap).pending := by
      rw [ReliableOut.pending, hcursor, List.mem_filter, mem_window]
      exact ⟨hwindow, hoccupied⟩
    refine ⟨datagram session writer j, List.mem_append_left _ ?_, numberOf_datagram _ _ j⟩
    rw [List.mem_reverse]
    show _ ∈ (n.bench.ro.onAcknack (UInt16.ofNat k) bitmap).retransmitAll.2
    rw [ReliableOut.retransmitAll_armed _ armed]
    exact List.mem_map.mpr ⟨_, hpending, hstored⟩

/-- When the agent says that it has every message, the round is the last one. -/
theorem finished_cleanRound (hpc : n.bench.pc = .round rounds) (hany : n.bench.ro.anySent = true)
    (bitmap : UInt16) : (n.cleanRound count count bitmap).bench.pc = .finished true := by
  simp only [Net.cleanRound, hpc]
  refine if_pos ?_
  show (n.bench.ro.onAcknack (UInt16.ofNat count) bitmap).retransmitAll.1.lastAcknown = _
  rw [lastAcknown_retransmitAll, Sender.onAcknack_of_sent hany, UInt16.zero_add]

theorem first_cleanRound (few : count ≤ 31) (pos : 0 < count)
    (reach : (net writer count).Reach InOrder (.start session) n) (hpc : n.bench.pc = .round rounds)
    (hround : rounds < maxRounds) (answers : Answers count n.arrived k m bitmap) :
    (net writer count).Reach InOrder (.start session) (n.cleanRound count k bitmap) ∧
      ∀ j < count, Has (n.cleanRound count k bitmap).arrived j := by
  obtain ⟨st, hkeeps⟩ := kept_of_reachable few pos reach
  have hany : n.bench.ro.anySent = true := hkeeps.anySent.mpr (by rw [hpc]; exact pos)
  have hd : Delivers session writer count n :=
    delivers_of_reachable (by omega) (reach.mono fun _ _ _ => trivial)
  have hheard := reach_heard quiet_inOrder hpc hround answers
    (answers.inOrder hd hkeeps few pos hpc) reach
  obtain ⟨st', hkeeps'⟩ := kept_of_reachable few pos hheard
  exact ⟨reach_cleanRound quiet_inOrder hpc hheard, has_cleanRound hpc answers few hany hkeeps'⟩

/-- From wherever a round begins, two rounds without loss end the program: after the first the agent
has every message, and after the second the program knows. -/
theorem two_clean_rounds (few : count ≤ 31) (pos : 0 < count)
    (reach : (net writer count).Reach InOrder (.start session) n) (hpc : n.bench.pc = .round rounds)
    (hround : rounds + 1 < maxRounds) (answers : Answers count n.arrived k m bitmap) {k' : Nat}
    {m' : Bytes} {bitmap' : UInt16}
    (answers' : Answers count (n.cleanRound count k bitmap).arrived k' m' bitmap') :
    (net writer count).Reach InOrder (.start session)
      ((n.cleanRound count k bitmap).cleanRound count k' bitmap') ∧
    (∀ j < count, Has (n.cleanRound count k bitmap).arrived j) ∧
    ((n.cleanRound count k bitmap).cleanRound count k' bitmap').bench.pc = .finished true := by
  obtain ⟨hfirst, hall⟩ := first_cleanRound few pos reach hpc (by omega) answers
  obtain hdone | hnext : (n.cleanRound count k bitmap).bench.pc = .finished true ∨
      (n.cleanRound count k bitmap).bench.pc = .round (rounds + 1) := by
    simp only [Net.cleanRound, hpc]
    split
    · exact Or.inl rfl
    · exact Or.inr rfl
  · have hstays : (n.cleanRound count k bitmap).cleanRound count k' bitmap' =
        n.cleanRound count k bitmap := by rw [Net.cleanRound, hdone]
    rw [hstays]
    exact ⟨hfirst, hall, hdone⟩
  · obtain ⟨hsecond, -⟩ := first_cleanRound few pos hfirst hnext hround answers'
    obtain ⟨st, hkeeps⟩ := kept_of_reachable few pos hfirst
    have hany : (n.cleanRound count k bitmap).bench.ro.anySent = true :=
      hkeeps.anySent.mpr (by rw [hnext]; exact pos)
    have hd : Delivers session writer count (n.cleanRound count k bitmap) :=
      delivers_of_reachable (by omega) (hfirst.mono fun _ _ _ => trivial)
    have hk : k' = count := by
      rcases answers'.missing with hk | ⟨hmissing, -⟩
      · exact hk
      · have hle : k' ≤ count := hd.le_of_has (by omega) answers'.has
        exact Nat.le_antisymm hle (Nat.not_lt.mp fun hlt => hmissing (hall k' hlt))
    subst hk
    exact ⟨hsecond, hall, finished_cleanRound hnext hany bitmap'⟩

end CleanRounds

deriving instance DecidableEq for Acknack

/-- Two samples, both lost when they are published. -/
theorem two_clean_rounds_lost :
    ∃ n : Net, n.arrived = [] ∧ n.bench.pc = .round 0 ∧
      ((n.cleanRound 2 0 3).cleanRound 2 2 0).bench.pc = .finished true := by
  let session : Session := .init 0x01 #v[0xB1, 0xB1, 0xB1, 0xB1] 512
  let acknack (count bitmap : UInt8) : Bytes :=
    [0x81, 0, 0, 0, 10, 1, 5, 0, count, 0, bitmap, 0, 0x80]
  have hrun : ((net ⟨0x001, 0x05⟩ 2).runGuarded InOrder (.start session)
      [.advance, .advance, .advance]).any (fun n => n.arrived = [] ∧ n.bench.pc = .round 0) =
      true := by
    decide +kernel
  obtain ⟨n, hn, harrived, hpc⟩ := System.exists_of_runGuarded hrun
  have reach := System.reach_of_runGuarded hn
  have answers : Answers 2 n.arrived 0 (acknack 0 3) 3 :=
    { parse := by decide +kernel
      has := fun j hj => absurd hj (Nat.not_lt_zero j)
      missing := Or.inr ⟨by rw [harrived]; decide, by decide⟩ }
  have hall := (first_cleanRound (by decide) (by decide) reach hpc (by decide) answers).2
  have answers' : Answers 2 (n.cleanRound 2 0 3).arrived 2 (acknack 2 0) 0 :=
    { parse := by decide +kernel
      has := hall
      missing := Or.inl rfl }
  exact ⟨n, harrived, hpc,
    (two_clean_rounds (by decide) (by decide) reach hpc (by decide) answers answers').2.2⟩

end RtosXrce.Host.BenchQos
