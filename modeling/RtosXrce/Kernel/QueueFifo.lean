import RtosXrce.Kernel.BoundedQueue

/-!
# The bounded queue is a FIFO

In a cooperative run only the task that has the processor can be inside a call past its first
wait, so the queue balances against that one call. When the scheduler has the processor no call
owes anything: what was received, followed by what is pending, is what was sent.
-/

namespace RtosXrce.Kernel

open Library

section Stages

variable {c q : Nat} {v : Snapshot} {d : Debt} {w : Stmt} {code succ : List Stmt} {b : Bool}

theorem Resting.head (h : Resting q code) : ∀ w ∈ code.head?, w.queue ≠ some q := by
  intro w hw
  cases h with
  | idle foreign => exact foreign w (List.mem_of_head? hw)
  | @waiting y goal s i base hy hg hb =>
    obtain rfl : y = w := Option.some.inj hw
    obtain hy | ⟨b, rfl⟩ := hy
    · cases y <;> cases hy <;> exact nofun
    · exact nofun

theorem Stmt.waitsFor_queue {s : SemId} (h : w.waitsFor v s) : w.queue = s.queue := by
  unfold waitsFor at h
  split at h
  case h_5 => rw [queue, h.1]
  case h_6 => cases h
  all_goals rw [queue, h]

theorem Stmt.enters_queue {m : MutexId} (h : w.enters m) : w.queue = m.queue := by
  unfold enters at h
  split at h <;> first | rw [queue, h] | cases h

theorem Stmt.entered_queue {m : MutexId} (h : w.entered m) : w.queue = m.queue := by
  unfold entered at h
  split at h <;> first | rw [queue, h] | cases h

theorem Stmt.leaves_queue {m : MutexId} (h : w.leaves m) : w.queue = m.queue := by
  unfold leaves at h
  split at h <;> first | rw [queue, h] | cases h

theorem Stmt.wakesAll_queue {o : Obj} (h : w.wakesAll o) : w.queue = o.queue := by
  unfold wakesAll at h
  split at h
  case h_1 => rw [queue, ← h, Obj.queue]
  case h_5 => cases h
  all_goals rw [queue, h]

/-- A call is past its first wait only in front of a statement of its own. -/
theorem Stage.resting_of_head (h : Stage q v code d) (hw : ∀ w ∈ code.head?, w.queue ≠ some q) :
    Resting q code ∧ d = {} := by
  cases h with
  | resting h => exact ⟨h, rfl⟩
  | waiting hw' hg hb => exact absurd ((Stmt.waitsFor_queue hw').trans hg.queue) (hw _ rfl)
  | entering hw' hg hb => exact absurd (Stmt.enters_queue hw') (hw _ rfl)
  | entered hw' hg hb => exact absurd (Stmt.entered_queue hw') (hw _ rfl)
  | leaving hw' hf hb => exact absurd (Stmt.leaves_queue hw') (hw _ rfl)
  | left hw' hf hb => exact absurd (Stmt.wakesAll_queue hw') (hw _ rfl)
  | waking hw' hf hb => exact absurd ((Stmt.wakesAll_queue hw').trans hf.queue) (hw _ rfl)
  | inside hg hb => cases hg <;> exact absurd rfl (hw _ rfl)
  | stored hb => exact absurd rfl (hw _ rfl)
  | loaded hx hb => exact absurd rfl (hw _ rfl)
  | posting hf hb => exact absurd hf.queue (hw _ rfl)
  | returning hb => exact absurd rfl (hw _ rfl)

theorem Stmt.control_queue (hs : w.control b = some succ) : w.queue = none ∧ Foreign q succ := by
  unfold control at hs
  split at hs <;> cases hs <;> simp [queue, Foreign]

/-- After a control statement a task that rested is still resting, or goes on waiting. -/
theorem Resting.control (h : Resting q (w :: code)) (hs : w.control b = some succ) :
    Resting q (succ ++ code) ∨ (∃ b, w = .restoreMask b) ∧ Stage q v (succ ++ code) {} := by
  cases h with
  | idle foreign =>
    exact Or.inl (.idle (foreign_append (Stmt.control_queue hs).2 foreign.tail))
  | waiting hy hg hb =>
    obtain hy | ⟨b, rfl⟩ := hy
    case inl =>
      left
      cases w <;> cases hy <;> cases hs
      · exact .waiting (Or.inl rfl) hg hb
      · exact .waiting (Or.inr ⟨_, rfl⟩) hg hb
    case inr =>
      cases hs
      exact Or.inr ⟨⟨b, rfl⟩, .waiting rfl hg hb⟩

theorem Ordered.resting {code : List Stmt} (h : Ordered c q v code)
    (hw : ∀ w ∈ code.head?, w.queue ≠ some q) : Resting q code ∧ ∃ n, Balance c {} n v := by
  obtain ⟨d, n, stage, bal⟩ := h
  obtain ⟨hrest, rfl⟩ := stage.resting_of_head hw
  exact ⟨hrest, n, bal⟩

end Stages

/-- The call does not go past `queue_send` and `queue_receive` to the parts of `q`. -/
def Op.respects (q : Nat) : Op → Prop
  | lock m | unlock m => m.queue ≠ some q
  | wait s | post s => s.queue ≠ some q
  | _ => True

instance (q : Nat) : (op : Op) → Decidable (op.respects q)
  | .lock m | .unlock m => inferInstanceAs (Decidable (m.queue ≠ some q))
  | .wait s | .post s => inferInstanceAs (Decidable (s.queue ≠ some q))
  | .yield | .sleep _ | .send _ _ | .receive _ | .spawn _ | .overflow => .isTrue trivial

theorem Op.stage_code {q : Nat} {op : Op} (h : op.respects q) (v : Snapshot) {base : List Stmt}
    (hb : Foreign q base) : Stage q v (op.code ++ base) {} := by
  have idle : Foreign q op.code → Stage q v (op.code ++ base) {} := fun hf =>
    .resting (.idle (foreign_append hf hb))
  cases op with
  | send q' x =>
    by_cases hq : q' = q
    · subst hq
      exact .waiting rfl (.send x) hb
    · exact idle (by simp [Foreign, code, Stmt.queue, SemId.queue, MutexId.queue, hq])
  | receive q' =>
    by_cases hq : q' = q
    · subst hq
      exact .waiting rfl .receive hb
    · exact idle (by simp [Foreign, code, Stmt.queue, SemId.queue, MutexId.queue, hq])
  | lock | unlock | wait | post =>
    exact idle (by simpa [Foreign, code, Stmt.queue, respects] using h)
  | yield | sleep | spawn | overflow => exact idle (by simp [Foreign, code, Stmt.queue])

namespace Machine

variable {k k' : Machine} {a : Action} {c q : Nat}

/-- The tasks use `q` through `queue_send` and `queue_receive` only. -/
def CallsQueue (q : Nat) (a : Action) : Prop := ∀ op, a = .call op → op.respects q

instance (q : Nat) : (a : Action) → Decidable (CallsQueue q a)
  | .exec | .tick => .isTrue nofun
  | .call op => decidable_of_iff (op.respects q)
      ⟨fun h _ ha => by cases ha; exact h, fun h => h op rfl⟩

/-- The tasks that do not have the processor are away from the queue or in their first wait. -/
structure Fifo (c q : Nat) (k : Machine) : Prop where
  resting : ∀ e, e ≠ k.cpu → Resting q (k.threads e).code
  running : Ordered c q (k.vars.snapshot q) k.current.code

theorem fifo_start (cfg : Config) (hc : 1 ≤ cfg.capacity q) :
    Fifo (cfg.capacity q) q cfg.start where
  resting e _ := by
    refine .idle fun s hs => ?_
    cases e with
    | sched =>
      obtain rfl : s = .runTest := by simpa [Config.start] using hs
      simp [Stmt.queue]
    | task i =>
      simp only [Config.start, Thread.trampoline, List.mem_cons, List.not_mem_nil, or_false] at hs
      rcases hs with rfl | rfl | rfl <;> simp [Stmt.queue]
  running := by
    refine ⟨{}, 0, .resting (.idle fun s hs => ?_), ?_⟩
    · obtain rfl : s = .runTest := by simpa [Config.start, current] using hs
      simp [Stmt.queue]
    · exact ⟨rfl, hc, hc, rfl,
        by simp [Globals.snapshot, Config.start, Config.vars, Semaphore.init],
        rfl, by simp [Globals.snapshot, Config.start, Config.vars, Semaphore.init], Int.le_refl 0,
        rfl, rfl⟩

/-- A step after which the thread that had the processor may go on, or rests and gives it up. -/
theorem Fifo.move (h : Fifo c q k) {th : Thread}
    (hk : k'.threads = Function.update k.threads k.cpu th)
    (same : k'.cpu = k.cpu → Ordered c q (k'.vars.snapshot q) th.code)
    (switch : k'.cpu ≠ k.cpu → Resting q th.code ∧ ∃ n, Balance c {} n (k'.vars.snapshot q)) :
    Fifo c q k' := by
  obtain ⟨resting, running⟩ := hand_over hk h.resting same fun hcpu => by
    obtain ⟨hrest, n, bal⟩ := switch hcpu
    exact ⟨hrest, fun _ hcode => ⟨{}, n, .resting hcode, bal⟩⟩
  exact ⟨resting, running⟩

theorem Fifo.step (h : Fifo c q k) (coop : Cooperative a) (calls : CallsQueue q a)
    (hstep : system.step k a = some k') : Fifo c q k' := by
  have hrun := h.running
  obtain ⟨th, hth, moves⟩ := step_moves hstep
  cases moves with
  | resume frame cpu code =>
    refine h.move hth (fun _ => ?_) fun hne => absurd cpu hne
    rwa [frame.snapshot, code]
  | tick => exact absurd rfl coop
  | @control s rest succ frame hc hs cpu code =>
    rw [hc] at hrun
    have hq : ∀ w ∈ (s :: rest).head?, w.queue ≠ some q := by
      rintro w ⟨rfl⟩
      rw [(Stmt.control_queue (q := q) hs).1]
      exact nofun
    obtain ⟨hrest, n, bal⟩ := hrun.resting hq
    rw [← frame.snapshot q] at bal
    refine h.move hth (fun _ => ?_) fun hne => ?_ <;> rw [code]
    · obtain hrest' | ⟨-, stage⟩ := hrest.control (v := k'.vars.snapshot q) hs
      · exact ⟨_, n, .resting hrest', bal⟩
      · exact ⟨_, n, stage, bal⟩
    · obtain hrest' | ⟨⟨b, rfl⟩, -⟩ := hrest.control (v := k'.vars.snapshot q) hs
      · exact ⟨hrest', n, bal⟩
      · exact absurd cpu hne
  | exit frame hc cpu code =>
    rw [hc] at hrun
    obtain ⟨-, n, bal⟩ := hrun.resting (by rintro w ⟨rfl⟩; exact nofun)
    rw [← frame.snapshot q] at bal
    have idle : Resting q th.code := .idle (by rw [code]; exact nofun)
    exact h.move hth (fun _ => ⟨_, n, .resting idle, bal⟩) fun _ => ⟨idle, n, bal⟩
  | plain _ hc he cpu code =>
    rw [hc] at hrun
    refine h.move hth (fun _ => ?_) fun hne => absurd cpu hne
    rw [code]
    exact hrun.exec he
  | @call op rest frame cpu hc code =>
    rw [hc] at hrun
    obtain ⟨hrest, n, bal⟩ := hrun.resting (by rintro w ⟨rfl⟩; exact nofun)
    rw [← frame.snapshot q] at bal
    refine h.move hth (fun _ => ?_) fun hne => absurd cpu hne
    rw [code]
    cases hrest with
    | idle foreign => exact ⟨_, n, Op.stage_code (calls op rfl) _ foreign, bal⟩
    | waiting hy =>
      obtain hy | ⟨b, hy⟩ := hy
      · cases hy
      · cases hy

theorem SchedPoint.foreign {g : Globals} {code : List Stmt} (h : SchedPoint g code) :
    Foreign q code := by
  cases code with
  | nil => exact List.forall_mem_nil _
  | cons s rest =>
    obtain ⟨hs, hrest⟩ | ⟨b, n, rfl, rfl⟩ := h.cases
    · have own : s.queue = none := by
        cases s <;> first | rfl | cases hs
      refine List.forall_mem_cons.mpr ⟨by rw [own]; exact nofun, ?_⟩
      obtain rfl | ⟨n, -, rfl⟩ := hrest
      · exact List.forall_mem_nil _
      · exact List.forall_mem_singleton.mpr nofun
    · refine List.forall_mem_cons.mpr ⟨nofun, ?_⟩
      exact List.forall_mem_cons.mpr ⟨nofun, List.forall_mem_singleton.mpr nofun⟩

end Machine

/-- The items in the queue: `slots_filled` many slots, in ring order from `head`. -/
def Globals.pending (g : Globals) (q : Nat) : List Item :=
  Ring.slots (g.queues q).buffer (g.queues q).capacity (g.queues q).head
    (g.sems (.filledOf q)).count.toNat

/-- A statement of `queue_send`, or of its `sem_post`. -/
def Stmt.ofSend (q : Nat) : Stmt → Prop
  | sendStore q' _ | sendTail q' => q' = q
  | postCount s => s = .filledOf q
  | wakeTest o _ | wakeReady o _ | wakeClear o => o = .sem (.filledOf q)
  | _ => False

/-- A statement of `queue_receive`; its last one stays to the end. -/
def Stmt.ofReceive (q : Nat) : Stmt → Prop
  | receiveLoad q' | receiveHead q' _ | receiveReturn q' _ => q' = q
  | _ => False

theorem Stmt.ofSend_queue {s : Stmt} {q : Nat} (h : s.ofSend q) : s.queue = some q := by
  cases s <;> simp_all [ofSend, queue, SemId.queue, Obj.queue]

theorem Stmt.ofReceive_queue {s : Stmt} {q : Nat} (h : s.ofReceive q) : s.queue = some q := by
  cases s <;> simp_all [ofReceive, queue]

/-- A resting task with a statement of a call left is in the first wait of that call. -/
theorem Resting.awaits {q : Nat} {code : List Stmt} (h : Resting q code) {s : Stmt}
    (hs : s ∈ code) (hq : s.queue = some q) :
    ∃ goal r, Goal q goal r ∧ awaited code = some (.sem r) ∧
      (s = goal ∨ s = .lockCurrent (.lockOf q) ∨ ∃ i, s = .waitTest r i) := by
  cases h with
  | idle foreign => exact absurd hq (foreign s hs)
  | @waiting y goal r i base hy hg hb =>
    refine ⟨goal, r, hg, rfl, ?_⟩
    rcases List.mem_cons.mp hs with rfl | hs
    · exact absurd hq ((Resting.waiting (i := i) hy hg hb).head s rfl)
    rcases List.mem_cons.mp hs with rfl | hs
    · exact Or.inr (Or.inr ⟨i, rfl⟩)
    rcases List.mem_cons.mp hs with rfl | hs
    · exact Or.inr (Or.inl rfl)
    rcases List.mem_cons.mp hs with rfl | hs
    · exact Or.inl rfl
    · exact absurd hq (hb s hs)

theorem Resting.awaits_empty {q : Nat} {code : List Stmt} (h : Resting q code) {s : Stmt}
    (hs : s ∈ code) (hsend : s.ofSend q) : awaited code = some (.sem (.emptyOf q)) := by
  obtain ⟨goal, r, hg, hawaited, rfl | rfl | ⟨i, rfl⟩⟩ := h.awaits hs (Stmt.ofSend_queue hsend)
  · cases hg with
    | send => exact hawaited
    | receive => cases hsend
  · cases hsend
  · cases hsend

theorem Resting.awaits_filled {q : Nat} {code : List Stmt} (h : Resting q code) {s : Stmt}
    (hs : s ∈ code) (hreceive : s.ofReceive q) : awaited code = some (.sem (.filledOf q)) := by
  obtain ⟨goal, r, hg, hawaited, rfl | rfl | ⟨i, rfl⟩⟩ :=
    h.awaits hs (Stmt.ofReceive_queue hreceive)
  · cases hg with
    | send => cases hreceive
    | receive => exact hawaited
  · cases hreceive
  · cases hreceive

theorem Stmt.releases_queue {s : Stmt} {r : SemId} (h : s.releases = some (.sem r)) :
    s.queue = r.queue := by
  cases s <;> simp_all [releases, queue, Obj.queue]

theorem Balance.pending {c q n : Nat} {g : Globals} (bal : Balance c {} n (g.snapshot q)) :
    (g.queues q).received ++ g.pending q = (g.queues q).sent ∧ (g.pending q).length = n := by
  have hcount : (g.sems (.filledOf q)).count.toNat = n := by
    have := bal.filled
    simp only [Globals.snapshot] at this
    omega
  have hcapacity : (g.queues q).capacity = c := bal.capacity
  have hhistory : (g.queues q).sent = (g.queues q).received ++ [] ++
    Ring.slots (g.queues q).buffer c (g.queues q).head n := bal.history
  refine ⟨?_, by simp [Globals.pending, hcount]⟩
  rw [hhistory, Globals.pending, hcount, hcapacity, List.append_nil]

namespace Machine

variable {k : Machine} {c q t : Nat}

def InSend (k : Machine) (q t : Nat) : Prop := ∃ s ∈ (k.threads (.task t)).code, s.ofSend q

def InReceive (k : Machine) (q t : Nat) : Prop := ∃ s ∈ (k.threads (.task t)).code, s.ofReceive q

/-- While the scheduler has the processor every execution rests. -/
theorem Fifo.all_resting (fifo : Fifo c q k) (wf : Wf k) (hand : k.cpu = .sched) (e : Exec) :
    Resting q (k.threads e).code := by
  by_cases he : e = k.cpu
  · rw [he, hand]
    exact .idle wf.sched.foreign
  · exact fifo.resting e he

/-- While every execution rests, a blocked task waits for a semaphore of the queue only at a count
of 0. -/
theorem Attended.count_of_blocked (att : Attended k) (rest : ∀ e, Resting q (k.threads e).code)
    {r : SemId} (hr : r.queue = some q) (hb : (k.vars.tasks t).state = .blocked)
    (hawaited : awaited (k.threads (.task t)).code = some (.sem r)) :
    (k.vars.sems r).count ≤ 0 := by
  have support := att.supported t hb
  simp only [Supported, hawaited] at support
  obtain ⟨-, hun | ⟨e, s, hs, hrelease⟩⟩ := support
  · exact hun
  · exact absurd ((Stmt.releases_queue hrelease).trans hr) ((rest e).head s hs)

/-- Whenever the scheduler has the processor in a cooperative run, the items received so far and
then the pending ones are the items sent so far; at most as many are pending as the queue has
slots; and a task is blocked in `queue_receive` only on an empty queue, in `queue_send` only on a
full one. -/
theorem bounded_queue_fifo (cfg : Config) {q : Nat} (hc : 1 ≤ cfg.capacity q) {k : Machine}
    (h : system.Reach (fun _ a => Cooperative a ∧ CallsQueue q a) cfg.start k)
    (hand : k.cpu = .sched) :
    (k.vars.queues q).received ++ k.vars.pending q = (k.vars.queues q).sent ∧
    (k.vars.pending q).length ≤ cfg.capacity q ∧
    ∀ t, (k.vars.tasks t).state = .blocked →
      (k.InReceive q t → k.vars.pending q = []) ∧
      (k.InSend q t → (k.vars.pending q).length = cfg.capacity q) := by
  have wf : Wf k := wf_of_reach (fun k _ hok => hok.1.ticksTasks k) h
  have att : Attended k := attended_of_reach
    (fun _ => wf_of_reach fun k _ hok => hok.1.ticksTasks k) (fun k _ hok => hok.1.spares k) h
  have fifo : Fifo (cfg.capacity q) q k :=
    h.invariant (fifo_start cfg hc) fun _ _ _ fifo hok hstep => fifo.step hok.1 hok.2 hstep
  have rest := fifo.all_resting wf hand
  obtain ⟨-, n, bal⟩ := fifo.running.resting (rest k.cpu).head
  obtain ⟨hhistory, hlength⟩ := bal.pending
  have hempty : (k.vars.sems (.emptyOf q)).count + n = cfg.capacity q := by
    simpa [Globals.snapshot] using bal.empty
  have hfilled : (k.vars.sems (.filledOf q)).count = n := by
    simpa [Globals.snapshot] using bal.filled
  have hfree : 0 ≤ (k.vars.sems (.emptyOf q)).count := bal.free
  refine ⟨hhistory, by omega, fun t hb => ⟨?_, ?_⟩⟩
  · rintro ⟨s, hs, hreceive⟩
    have := att.count_of_blocked rest rfl hb ((rest _).awaits_filled hs hreceive)
    exact List.eq_nil_of_length_eq_zero (by omega)
  · rintro ⟨s, hs, hsend⟩
    have := att.count_of_blocked rest rfl hb ((rest _).awaits_empty hs hsend)
    omega

/-- The first task sends two items to a queue of one slot, and blocks on the second. -/
def fullRun : List Action := script 7 [(.call (.send 0 5), 19), (.call (.send 0 6), 9)]

theorem bounded_queue_fifo_full :
    ∃ k, system.runGuarded (fun _ a => Cooperative a ∧ CallsQueue 0 a) Config.twoTasks.start
        fullRun = some k ∧ k.cpu = .sched ∧ (k.vars.tasks 0).state = .blocked ∧
      (k.vars.queues 0).sent = [5] ∧
      (k.vars.queues 0).received ++ k.vars.pending 0 = (k.vars.queues 0).sent ∧
      (k.vars.pending 0).length ≤ 1 ∧
      ∀ t, (k.vars.tasks t).state = .blocked →
        (k.InReceive 0 t → k.vars.pending 0 = []) ∧
        (k.InSend 0 t → (k.vars.pending 0).length = 1) := by
  obtain ⟨k, hrun, hand, hblocked, hsent⟩ : ∃ k, system.runGuarded
      (fun _ a => Cooperative a ∧ CallsQueue 0 a) Config.twoTasks.start fullRun = some k ∧
      k.cpu = .sched ∧ (k.vars.tasks 0).state = .blocked ∧ (k.vars.queues 0).sent = [5] :=
    System.exists_of_runGuarded (by decide +kernel)
  exact ⟨k, hrun, hand, hblocked, hsent, bounded_queue_fifo .twoTasks (by decide)
    (System.reach_of_runGuarded hrun) hand⟩

end Machine

end RtosXrce.Kernel
