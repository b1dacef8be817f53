import RtosXrce.Kernel.QueueFifo
import RtosXrce.Xrce.Msgs

/-!
# The queue depth of the live diagnostics

`add_queue_status` of `host/live_diagnostics_demo.c` works the depth of a queue out of its two
indices. A full queue has the indices of an empty one.
-/

namespace RtosXrce.Host

open Library Kernel Xrce Xrce.Cdr Xrce.Msgs

namespace LiveDiagnostics

/-- `INT_MAX`. -/
abbrev intMax : Int := 2147483647

/-- `DIAGNOSTIC_STATUS_OK`. -/
abbrev diagnosticStatusOk : UInt8 := 0

/-- `DIAGNOSTIC_STATUS_WARN`. -/
abbrev diagnosticStatusWarn : UInt8 := 1

/-- `snprintf` of an ASCII text into a field of `n + 1` bytes. -/
def snprintf {n : Nat} (text : String) : FixedString (n + 1) where
  toCString := CString.ofBytes ((text.toList.map fun c => UInt8.ofNat c.toNat).take n)
  fits := by
    refine Nat.lt_succ_of_le ((List.takeWhile_prefix _).length_le.trans ?_)
    exact List.length_take_le _ _

/-- `depth`; `none` is the overflow of the sum, which C leaves undefined. -/
def depth (q : Queue) : Option Int :=
  let sum := (q.tail - q.head + q.capacity : Int)
  if sum > intMax then none else some (sum.tmod q.capacity)

/-- The entry that `add_queue_status` fills in. -/
def addQueueStatus (name : String) (q : Queue) : Option DiagnosticMsgsDiagnosticStatus :=
  (depth q).map fun (depth : Int) =>
    { level := if depth = (q.capacity - 1 : Int) then diagnosticStatusWarn else diagnosticStatusOk
      name := snprintf ("queue/" ++ name)
      message := snprintf ("depth " ++ toString depth ++ "/" ++ toString q.capacity)
      hardwareId := snprintf "rtos"
      values :=
        { elems := [⟨snprintf "depth", snprintf (toString depth)⟩,
            ⟨snprintf "capacity", snprintf (toString q.capacity)⟩]
          count_lt := Nat.lt_of_le_of_lt (Nat.le_refl 2) (by decide)
          fits := Nat.le_of_ble_eq_true rfl } }

/-- The items sent and not yet received. -/
def realDepth (q : Queue) : Nat := q.sent.length - q.received.length

/-- The sum in `depth` is an `int`. -/
def NoOverflow (q : Queue) : Prop := (q.tail - q.head + q.capacity : Int) ≤ intMax

/-- The two indices tell how many items lie between them, but for whole rounds of the ring. -/
theorem depth_eq {c n : Nat} {g : Globals} {q : Nat}
    (bal : Balance c {} n (g.snapshot q)) (fits : NoOverflow (g.queues q)) :
    depth (g.queues q) = some ((n % c : Nat) : Int) := by
  have hcapacity : (g.queues q).capacity = c := bal.capacity
  have hhead : (g.queues q).head < c := bal.head
  have htail : (g.queues q).tail < c := bal.tail
  have hends : (g.queues q).tail % c = ((g.queues q).head + n) % c := bal.ends
  have hroom : n ≤ c := by
    have hfree : 0 ≤ (g.snapshot q).empty := bal.free
    have hempty : (g.snapshot q).empty + (0 : Nat) + n = c := bal.empty
    omega
  rw [Nat.mod_eq_of_lt htail] at hends
  unfold NoOverflow at fits
  unfold depth
  rw [if_neg (Int.not_lt.mpr fits), hcapacity, Int.tmod_eq_emod_of_nonneg (by omega)]
  -- the tail is `n` slots ahead of the head, once around the ring at most
  by_cases hwrap : (g.queues q).head + n < c
  · rw [Nat.mod_eq_of_lt hwrap] at hends
    have hsum : ((g.queues q).tail - (g.queues q).head + c : Int) = n + c := by omega
    rw [hsum, Int.add_emod_right]
    rfl
  · rw [Nat.mod_eq_sub_mod (by omega), Nat.mod_eq_of_lt (by omega)] at hends
    have hsum : ((g.queues q).tail - (g.queues q).head + c : Int) = n := by omega
    rw [hsum]
    rfl

/-- Away from a full ring the two indices tell how many items lie between them. -/
theorem depth_eq_iff {c n : Nat} {g : Globals} {q : Nat} (hc : 1 ≤ c)
    (bal : Balance c {} n (g.snapshot q)) :
    depth (g.queues q) = some (n : Int) ↔ n ≠ c ∧ NoOverflow (g.queues q) := by
  have hroom : n ≤ c := by
    have hfree : 0 ≤ (g.snapshot q).empty := bal.free
    have hempty : (g.snapshot q).empty + (0 : Nat) + n = c := bal.empty
    omega
  by_cases fits : NoOverflow (g.queues q)
  · rw [depth_eq bal fits, Option.some.injEq, Int.ofNat_inj, and_iff_left fits]
    constructor
    · rintro hself rfl
      rw [Nat.mod_self] at hself
      omega
    · intro hne
      exact Nat.mod_eq_of_lt (by omega)
  · have hover : depth (g.queues q) = none := if_pos (Int.not_le.mp fits)
    rw [hover]
    simp [fits]

/-- In a cooperative run, outside of the queue's own calls, the indices fit the items on their
way. -/
theorem balance_of_reach (cfg : Config) {q : Nat} (hc : 1 ≤ cfg.capacity q) {k : Machine}
    (h : Machine.system.Reach (fun _ a => Machine.Cooperative a ∧ Machine.CallsQueue q a)
      cfg.start k) (outside : ∀ s ∈ k.next, s.queue ≠ some q) :
    Balance (cfg.capacity q) {} (realDepth (k.vars.queues q)) (k.vars.snapshot q) := by
  have fifo : Machine.Fifo (cfg.capacity q) q k :=
    h.invariant (Machine.fifo_start cfg hc) fun _ _ _ fifo hok hstep => fifo.step hok.1 hok.2 hstep
  obtain ⟨-, n, bal⟩ := fifo.running.resting outside
  obtain ⟨hhistory, hlength⟩ := bal.pending
  have hreal : realDepth (k.vars.queues q) = n := by
    rw [realDepth, ← hhistory, List.length_append, Nat.add_sub_cancel_left, hlength]
  rwa [hreal]

/-- In a cooperative run, outside of the queue's own calls, the reported depth is the real one
exactly when the queue is not full and the sum of the indices is an `int`. -/
theorem reported_depth_iff (cfg : Config) {q : Nat} (hc : 1 ≤ cfg.capacity q) {k : Machine}
    (h : Machine.system.Reach (fun _ a => Machine.Cooperative a ∧ Machine.CallsQueue q a)
      cfg.start k) (outside : ∀ s ∈ k.next, s.queue ≠ some q) :
    depth (k.vars.queues q) = some (realDepth (k.vars.queues q) : Int) ↔
      realDepth (k.vars.queues q) ≠ cfg.capacity q ∧ NoOverflow (k.vars.queues q) :=
  depth_eq_iff hc (balance_of_reach cfg hc h outside)

/-- The message and the level of the entry, by the depth that was worked out. -/
theorem exists_status (name : String) {q : Queue} {d : Int} (hdepth : depth q = some d) :
    ∃ status, addQueueStatus name q = some status ∧
      status.message = snprintf ("depth " ++ toString d ++ "/" ++ toString q.capacity) ∧
      (status.level = diagnosticStatusWarn ↔ d = (q.capacity - 1 : Int)) := by
  refine ⟨_, congrArg (Option.map _) hdepth, rfl, ?_⟩
  simp only
  split
  case isTrue hlast => exact iff_of_true rfl hlast
  case isFalse hother => exact iff_of_false (by decide) hother

/-- What the entry says: a full queue of two or more slots is reported in the words of an empty one,
and the warning is for the last free slot. -/
theorem reported_status (name : String) (cfg : Config) {q : Nat} (hc : 1 ≤ cfg.capacity q)
    {k : Machine}
    (h : Machine.system.Reach (fun _ a => Machine.Cooperative a ∧ Machine.CallsQueue q a)
      cfg.start k) (outside : ∀ s ∈ k.next, s.queue ≠ some q)
    (fits : NoOverflow (k.vars.queues q)) :
    ∃ status, addQueueStatus name (k.vars.queues q) = some status ∧
      status.message = snprintf ("depth " ++
        toString ((realDepth (k.vars.queues q) % cfg.capacity q : Nat) : Int) ++ "/" ++
        toString (cfg.capacity q)) ∧
      (status.level = diagnosticStatusWarn ↔
        realDepth (k.vars.queues q) % cfg.capacity q + 1 = cfg.capacity q) := by
  have bal := balance_of_reach cfg hc h outside
  have hcapacity : (k.vars.queues q).capacity = cfg.capacity q := bal.capacity
  obtain ⟨status, hstatus, hmessage, hlevel⟩ := exists_status name (depth_eq bal fits)
  rw [hcapacity] at hmessage hlevel
  exact ⟨status, hstatus, hmessage, hlevel.trans (by omega)⟩

/-- Two tasks and queues of two slots. -/
def twoSlots : Config := { Config.twoTasks with capacity := fun _ => 2 }

/-- The first task sends an item to a queue of two slots. -/
theorem reported_depth_iff_one :
    ∃ k, Machine.system.runGuarded (fun _ a => Machine.Cooperative a ∧ Machine.CallsQueue 0 a)
        twoSlots.start (Machine.script 7 [(.call (.send 0 5), 19)]) = some k ∧
      k.next = some .body ∧ depth (k.vars.queues 0) = some 1 := by
  obtain ⟨k, hrun, hbody, hreal, hfits⟩ : ∃ k, Machine.system.runGuarded
      (fun _ a => Machine.Cooperative a ∧ Machine.CallsQueue 0 a) twoSlots.start
      (Machine.script 7 [(.call (.send 0 5), 19)]) = some k ∧ k.next = some .body ∧
      realDepth (k.vars.queues 0) = 1 ∧
      ((k.vars.queues 0).tail - (k.vars.queues 0).head + (k.vars.queues 0).capacity : Int) ≤
        intMax :=
    System.exists_of_runGuarded (by decide +kernel)
  refine ⟨k, hrun, hbody, ?_⟩
  have hiff := reported_depth_iff twoSlots (by decide) (System.reach_of_runGuarded hrun)
    (by rw [hbody]; rintro s ⟨rfl⟩; simp [Stmt.queue])
  rw [hreal] at hiff
  exact hiff.mpr ⟨by decide, hfits⟩

/-- A queue of one slot holds one item, and 0 is reported. -/
theorem full_queue_reported_empty :
    ∃ k, Machine.system.runGuarded (fun _ a => Machine.Cooperative a ∧ Machine.CallsQueue 0 a)
        Config.twoTasks.start (Machine.script 7 [(.call (.send 0 5), 19)]) = some k ∧
      k.next = some .body ∧ realDepth (k.vars.queues 0) = 1 ∧
      depth (k.vars.queues 0) = some 0 :=
  System.exists_of_runGuarded (by decide +kernel)

end LiveDiagnostics

end RtosXrce.Host
