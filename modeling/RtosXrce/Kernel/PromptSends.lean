import RtosXrce.Kernel.QueueFifo

/-!
# Sends that find room

A `queue_send` that starts in a cooperative run while the queue has a free slot stores its item
before its task gives the processor up. As long as every send starts like that, no item is on its
way to the queue anywhere but in the running thread.
-/

namespace RtosXrce.Kernel

open Library

/-- The item that the statement stores in `q`. -/
def Stmt.storing (q : Nat) : Stmt → Option Item
  | sendStore q' x => if q' = q then some x else none
  | _ => none

/-- The item with which the statement returns from `queue_receive` on `q`. -/
def Stmt.returning (q : Nat) : Stmt → Option Item
  | receiveReturn q' x => if q' = q then some x else none
  | _ => none

/-- Only these two statements write the histories of a queue. -/
theorem Stmt.exec_history {g g' : Globals} {s : Stmt} {succ : List Stmt}
    (h : s.exec g = some (g', succ)) (q : Nat) :
    (g'.queues q).sent = (g.queues q).sent ++ (s.storing q).toList ∧
    (g'.queues q).received = (g.queues q).received ++ (s.returning q).toList := by
  cases s <;>
    simp only [exec, Option.map_eq_some_iff, Option.some.injEq, Prod.mk.injEq, reduceCtorEq,
      Option.ite_none_right_eq_some] at h
  case sendStore q' x =>
    obtain ⟨rfl, -⟩ := h
    by_cases hq : q' = q
    · subst hq
      simp [storing, returning]
    · simp [storing, returning, hq, Ne.symm hq]
  case receiveReturn q' x =>
    obtain ⟨rfl, -⟩ := h
    by_cases hq : q' = q
    · subst hq
      simp [storing, returning]
    · simp [storing, returning, hq, Ne.symm hq]
  case sendTail q' | receiveHead q' x =>
    obtain ⟨rfl, -⟩ := h
    by_cases hq : q' = q
    · subst hq
      simp [storing, returning]
    · simp [storing, returning, Ne.symm hq]
  all_goals
    simp only [storing, returning, Option.toList_none, List.append_nil]
    first
      | (obtain ⟨rfl, -⟩ := h; simp)
      | (obtain ⟨c, -, rfl, -⟩ := h; simp)
      | (obtain ⟨-, rfl, -⟩ := h; simp)

/-- Code that has no item left to store in `q`. -/
def Unladen (q : Nat) (code : List Stmt) : Prop := ∀ s ∈ code, s.storing q = none

theorem unladen_append {q : Nat} {succ rest : List Stmt} (hsucc : Unladen q succ)
    (hrest : Unladen q rest) : Unladen q (succ ++ rest) := fun s hs =>
  (List.mem_append.mp hs).elim (hsucc s) (hrest s)

theorem Unladen.tail {q : Nat} {s : Stmt} {rest : List Stmt} (h : Unladen q (s :: rest)) :
    Unladen q rest := fun s hs => h s (List.mem_cons_of_mem _ hs)

theorem Stmt.exec_unladen {g g' : Globals} {s : Stmt} {succ : List Stmt} {q : Nat}
    (h : s.exec g = some (g', succ)) : Unladen q succ := by
  cases s <;>
    simp only [exec, Option.map_eq_some_iff, Option.some.injEq, Prod.mk.injEq, reduceCtorEq,
      Option.ite_none_right_eq_some] at h
  all_goals first
    | obtain ⟨-, rfl⟩ := h
    | obtain ⟨c, -, -, rfl⟩ := h
  all_goals try split
  all_goals repeat' first
    | exact List.forall_mem_nil _
    | refine List.forall_mem_cons.mpr ⟨rfl, ?_⟩

theorem Stmt.control_unladen {b : Bool} {s : Stmt} {succ : List Stmt} {q : Nat}
    (h : s.control b = some succ) : Unladen q succ := by
  unfold control at h
  split at h <;> cases h <;> simp [Unladen, storing]

/-- A step of `sem_wait` that goes on to take the count, when there is one. -/
def Stmt.passes (s : SemId) : Stmt → Prop
  | waitCurrent s' | waitTest s' _ | waitTake s' => s' = s
  | _ => False

/-- The rest of a `queue_send` of `x` that does not have to wait: there is a count to take, and
nobody is inside the queue. -/
inductive Prompt (q : Nat) (x : Item) (v : Snapshot) : List Stmt → Prop where
  | taking {w : Stmt} {base : List Stmt} (hw : w.passes (.emptyOf q)) (room : 0 < v.empty)
      (free : v.locked = false) (hb : Unladen q base) :
      Prompt q x v (w :: .lockCurrent (.lockOf q) :: .sendStore q x :: base)
  | entering {w : Stmt} {base : List Stmt} (hw : w.enters (.lockOf q)) (free : v.locked = false)
      (hb : Unladen q base) : Prompt q x v (w :: .sendStore q x :: base)
  | entered {w : Stmt} {base : List Stmt} (hw : w.entered (.lockOf q)) (hb : Unladen q base) :
      Prompt q x v (w :: .sendStore q x :: base)
  | storing {base : List Stmt} (hb : Unladen q base) : Prompt q x v (.sendStore q x :: base)

theorem Stmt.passes_queue {w : Stmt} {s : SemId} (h : w.passes s) : w.queue = s.queue := by
  unfold passes at h
  split at h <;> first | rw [queue, h] | cases h

theorem Prompt.head_queue {q : Nat} {x : Item} {v : Snapshot} {w : Stmt} {code : List Stmt}
    (h : Prompt q x v (w :: code)) : w.queue = some q := by
  cases h with
  | taking hw => exact Stmt.passes_queue hw
  | entering hw => exact Stmt.enters_queue hw
  | entered hw => exact Stmt.entered_queue hw
  | storing => rfl

/-- The code of a thread against the items put on their way: all of `items` are stored, or the last
one is about to be. -/
def OnItsWay (q : Nat) (items : List Item) (v : Snapshot) (code : List Stmt) : Prop :=
  (Unladen q code ∧ v.queue.sent = items) ∨
    ∃ x, Prompt q x v code ∧ v.queue.sent ++ [x] = items

section Exec

variable {q : Nat} {x : Item} {g g' : Globals} {w : Stmt} {code succ base : List Stmt}
  {items : List Item}

theorem Prompt.exec_taking (hw : w.passes (.emptyOf q)) (room : 0 < (g.snapshot q).empty)
    (free : (g.snapshot q).locked = false) (hb : Unladen q base)
    (he : w.exec g = some (g', succ)) :
    Prompt q x (g'.snapshot q) (succ ++ .lockCurrent (.lockOf q) :: .sendStore q x :: base) := by
  cases w <;> simp only [Stmt.passes] at hw <;>
    simp only [Stmt.exec, Option.map_eq_some_iff, Option.some.injEq, Prod.mk.injEq] at he <;>
    subst hw
  case waitCurrent =>
    obtain ⟨i, -, rfl, rfl⟩ := he
    exact .taking rfl room free hb
  case waitTest =>
    obtain ⟨rfl, rfl⟩ := he
    have hcount : ¬(g.sems (.emptyOf q)).count ≤ 0 := Int.not_le.mpr room
    rw [if_neg hcount]
    exact .taking rfl room free hb
  case waitTake =>
    obtain ⟨rfl, rfl⟩ := he
    exact .entering rfl free (by simpa [Unladen, Stmt.storing] using hb)

theorem Prompt.exec_entering (hw : w.enters (.lockOf q)) (free : (g.snapshot q).locked = false)
    (hb : Unladen q base) (he : w.exec g = some (g', succ)) :
    Prompt q x (g'.snapshot q) (succ ++ .sendStore q x :: base) := by
  cases w <;> simp only [Stmt.enters] at hw <;>
    simp only [Stmt.exec, Option.map_eq_some_iff, Option.some.injEq, Prod.mk.injEq] at he <;>
    subst hw
  case lockCurrent =>
    obtain ⟨i, -, rfl, rfl⟩ := he
    exact .entering rfl free hb
  case lockTest =>
    obtain ⟨rfl, rfl⟩ := he
    have hlocked : (g.mutexes (.lockOf q)).locked = false := free
    rw [if_neg (by simp [hlocked])]
    exact .entering rfl free hb
  case lockTake =>
    obtain ⟨rfl, rfl⟩ := he
    exact .entered rfl hb

theorem Prompt.exec_entered (hw : w.entered (.lockOf q)) (hb : Unladen q base)
    (he : w.exec g = some (g', succ)) :
    Prompt q x (g'.snapshot q) (succ ++ .sendStore q x :: base) := by
  cases w <;> simp only [Stmt.entered] at hw <;>
    simp only [Stmt.exec, Option.some.injEq, Prod.mk.injEq] at he <;>
    obtain ⟨rfl, rfl⟩ := he
  case lockOwn => exact .entered hw hb
  case lockSave => exact .storing hb

/-- A prompt send stays prompt until its item is stored. -/
theorem Prompt.exec (h : Prompt q x (g.snapshot q) (w :: code)) (he : w.exec g = some (g', succ)) :
    (w.storing q = none ∧ Prompt q x (g'.snapshot q) (succ ++ code)) ∨
      (w.storing q = some x ∧ Unladen q code) := by
  cases h with
  | taking hw room free hb =>
    refine Or.inl ⟨?_, exec_taking hw room free hb he⟩
    cases w <;> first | rfl | cases hw
  | entering hw free hb =>
    refine Or.inl ⟨?_, exec_entering hw free hb he⟩
    cases w <;> first | rfl | cases hw
  | entered hw hb =>
    refine Or.inl ⟨?_, exec_entered hw hb he⟩
    cases w <;> first | rfl | cases hw
  | storing hb => exact Or.inr ⟨if_pos rfl, hb⟩

theorem OnItsWay.exec (h : OnItsWay q items (g.snapshot q) (w :: code))
    (he : w.exec g = some (g', succ)) : OnItsWay q items (g'.snapshot q) (succ ++ code) := by
  have hsent : (g'.snapshot q).queue.sent = (g.snapshot q).queue.sent ++ (w.storing q).toList :=
    (Stmt.exec_history he q).1
  obtain ⟨unladen, hall⟩ | ⟨x, hprompt, hall⟩ := h
  · refine Or.inl ⟨unladen_append (Stmt.exec_unladen he) unladen.tail, ?_⟩
    rw [hsent, unladen w List.mem_cons_self, ← hall]
    exact List.append_nil _
  · obtain ⟨hw, hprompt⟩ | ⟨hw, unladen⟩ := hprompt.exec he
    · refine Or.inr ⟨x, hprompt, ?_⟩
      rw [hsent, hw, ← hall]
      exact congrArg (· ++ [x]) (List.append_nil _)
    · refine Or.inl ⟨unladen_append (Stmt.exec_unladen he) unladen, ?_⟩
      rw [hsent, hw, ← hall]
      rfl

/-- In front of a statement that is not of the queue, everything is stored. -/
theorem OnItsWay.unladen {v : Snapshot} (h : OnItsWay q items v (w :: code))
    (hw : w.queue ≠ some q) : Unladen q (w :: code) ∧ v.queue.sent = items := by
  obtain h | ⟨x, hprompt, -⟩ := h
  · exact h
  · exact absurd hprompt.head_queue hw

end Exec

namespace Machine

variable {k k' : Machine} {a : Action} {c q : Nat} {items : List Item}

/-- Of `items` at most the last one is not yet in `q`, and then the running thread is about to
store it. -/
structure Issued (q : Nat) (items : List Item) (k : Machine) : Prop where
  others : ∀ e, e ≠ k.cpu → Unladen q (k.threads e).code
  running : OnItsWay q items (k.vars.snapshot q) k.current.code

theorem issued_start (cfg : Config) : Issued q [] cfg.start where
  others e _ := by
    cases e <;> simp [Config.start, Thread.trampoline, Unladen, Stmt.storing]
  running := Or.inl ⟨by simp [Config.start, current, Unladen, Stmt.storing], rfl⟩

/-- A step after which the thread that had the processor may go on, or has stored everything and
gives it up. -/
theorem Issued.move (h : Issued q items k) {items' : List Item} {th : Thread}
    (hk : k'.threads = Function.update k.threads k.cpu th)
    (same : k'.cpu = k.cpu → OnItsWay q items' (k'.vars.snapshot q) th.code)
    (switch : k'.cpu ≠ k.cpu → Unladen q th.code ∧ (k'.vars.snapshot q).queue.sent = items') :
    Issued q items' k' := by
  obtain ⟨others, running⟩ := hand_over hk h.others same fun hcpu => by
    obtain ⟨unladen, hall⟩ := switch hcpu
    exact ⟨unladen, fun _ hcode => Or.inl ⟨hcode, hall⟩⟩
  exact ⟨others, running⟩

/-- The queue on which the action starts a `queue_send`. -/
def Action.sendsTo : Action → Option Nat
  | call (.send q _) => some q
  | _ => none

theorem Issued.step (h : Issued q items k) (coop : Cooperative a) (calls : a.sendsTo ≠ some q)
    (hstep : system.step k a = some k') : Issued q items k' := by
  have hrun := h.running
  obtain ⟨th, hth, moves⟩ := step_moves hstep
  cases moves with
  | resume frame cpu code =>
    refine h.move hth (fun _ => ?_) fun hne => absurd cpu hne
    rwa [frame.snapshot, code]
  | tick => exact absurd rfl coop
  | control frame hc hs cpu code =>
    rw [hc] at hrun
    have hqueue := (Stmt.control_queue (q := q) hs).1
    obtain ⟨unladen, hall⟩ := hrun.unladen (by rw [hqueue]; exact nofun)
    rw [← frame.snapshot q] at hall
    have unladen : Unladen q th.code := by
      rw [code]
      exact unladen_append (Stmt.control_unladen hs) unladen.tail
    exact h.move hth (fun _ => Or.inl ⟨unladen, hall⟩) fun _ => ⟨unladen, hall⟩
  | exit frame hc cpu code =>
    rw [hc] at hrun
    obtain ⟨-, hall⟩ := hrun.unladen nofun
    rw [← frame.snapshot q] at hall
    have unladen : Unladen q th.code := by
      rw [code]
      exact nofun
    exact h.move hth (fun _ => Or.inl ⟨unladen, hall⟩) fun _ => ⟨unladen, hall⟩
  | plain _ hc he cpu code =>
    rw [hc] at hrun
    refine h.move hth (fun _ => ?_) fun hne => absurd cpu hne
    rw [code]
    exact hrun.exec he
  | @call op rest frame cpu hc code =>
    rw [hc] at hrun
    obtain ⟨unladen, hall⟩ := hrun.unladen nofun
    rw [← frame.snapshot q] at hall
    refine h.move hth (fun _ => Or.inl ⟨?_, hall⟩) fun hne => absurd cpu hne
    rw [code]
    refine unladen_append ?_ unladen
    cases op with
    | send q' x =>
      have hq : q' ≠ q := fun hq => calls (hq ▸ rfl)
      simp [Unladen, Op.code, Stmt.storing, hq]
    | _ => simp [Unladen, Op.code, Stmt.storing]

/-- The start of a send, on this queue or another. -/
theorem Fifo.send (h : Fifo c q k) {q' : Nat} {x : Item}
    (hstep : system.step k (.call (.send q' x)) = some k') : Fifo c q k' := by
  refine h.step (nofun : Cooperative (.call (.send q' x))) ?_ hstep
  rintro op ⟨rfl⟩
  trivial

/-- The start of a send on another queue. -/
theorem Issued.send_other (h : Issued q items k) {q' : Nat} {x : Item} (hq : q' ≠ q)
    (hstep : system.step k (.call (.send q' x)) = some k') : Issued q items k' :=
  h.step (nofun : Cooperative (.call (.send q' x))) (fun h => hq (Option.some.inj h)) hstep

theorem Issued.sent_prefix (h : Issued q items k) : (k.vars.queues q).sent <+: items := by
  obtain ⟨-, hall⟩ | ⟨x, -, hall⟩ := h.running
  · exact ⟨[], (List.append_nil _).trans hall⟩
  · exact ⟨[x], hall⟩

/-- In a task's own code the items on their way are those received and those pending. -/
theorem Issued.pending (h : Issued q items k) (fifo : Fifo c q k) {rest : List Stmt}
    (hc : k.current.code = .body :: rest) :
    (k.vars.queues q).received ++ k.vars.pending q = items ∧
    ∃ n, Balance c {} n (k.vars.snapshot q) ∧ (k.vars.pending q).length = n := by
  have hrun := h.running
  have hfifo := fifo.running
  rw [hc] at hrun hfifo
  obtain ⟨-, hall⟩ := hrun.unladen nofun
  obtain ⟨-, n, bal⟩ := hfifo.resting (by rintro w ⟨rfl⟩; exact nofun)
  obtain ⟨hhistory, hlength⟩ := bal.pending
  exact ⟨hhistory.trans hall, n, bal, hlength⟩

/-- Starting a send while the queue has a free slot. -/
theorem Issued.send (h : Issued q items k) (fifo : Fifo c q k) {x : Item}
    (room : (k.vars.pending q).length < c)
    (hstep : system.step k (.call (.send q x)) = some k') : Issued q (items ++ [x]) k' := by
  have hrun := h.running
  obtain ⟨th, hth, moves⟩ := step_moves hstep
  cases moves with
  | call frame cpu hc code =>
    rw [hc] at hrun
    obtain ⟨unladen, hall⟩ := hrun.unladen nofun
    obtain ⟨-, n, bal, hlength⟩ := h.pending fifo hc
    have hempty : (k.vars.snapshot q).empty + n = c := by simpa using bal.empty
    refine h.move hth (fun _ => Or.inr ⟨x, ?_, ?_⟩) fun hne => absurd cpu hne
    · rw [code, frame.snapshot]
      exact .taking rfl (by omega) bal.locked unladen
    · rw [frame.snapshot, hall]

/-- The item with which `queue_receive` on `q` returns in this step. -/
def returned (k : Machine) (q : Nat) : Action → Option Item
  | .exec => if k.current.handlers = [] then k.next.bind (Stmt.returning q) else none
  | .call _ | .tick => none

theorem received_step (hstep : system.step k a = some k') (q : Nat) :
    (k'.vars.queues q).received = (k.vars.queues q).received ++ (k.returned q a).toList := by
  have hnone : ∀ {s : Stmt} {rest : List Stmt}, k.current.code = s :: rest →
      s.returning q = none → k.returned q .exec = none := fun hc hs => by
    simp [returned, next_eq hc, hs]
  cases step_cases hstep with
  | handlerReturn hh => simp [returned, hh]
  | entryReturn hh hc | restoreMask hh hc | runBlock hh hc | yieldBlock hh hc | runSwap hh hc
  | exit hh hc | yieldSwap hh hc => simp [hnone hc rfl]
  | plain hh hc he =>
    rw [returned, if_pos hh, next_eq hc]
    exact (Stmt.exec_history he q).2
  | call hh hc => simp [returned]
  | tick hm => simp [returned, k.frame_tick.queues]

/-- `queue_receive` returns the oldest item that was sent and not yet received. -/
theorem Fifo.returned (h : Fifo c q k) {x : Item} (hx : k.returned q a = some x) :
    (k.vars.queues q).received ++ [x] <+: (k.vars.queues q).sent := by
  cases a with
  | call | tick => cases hx
  | exec =>
    rw [Machine.returned] at hx
    split at hx
    case isFalse => cases hx
    case isTrue =>
      obtain ⟨s, hs, hret⟩ := Option.bind_eq_some_iff.mp hx
      obtain ⟨rest, hc⟩ := List.head?_eq_some_iff.mp hs
      obtain rfl : s = .receiveReturn q x := by
        cases s <;> simp [Stmt.returning] at hret
        obtain ⟨rfl, rfl⟩ := hret
        rfl
      have hrun := h.running
      rw [hc] at hrun
      obtain ⟨d, n, stage, bal⟩ := hrun
      have hhistory := bal.history
      cases stage with
      | returning => exact ⟨_, hhistory.symm⟩
      | resting h => exact absurd rfl (h.head _ rfl)
      | waiting hw | entering hw | entered hw | leaving hw | left hw | waking hw => cases hw
      | inside hg => cases hg

end Machine

end RtosXrce.Kernel
