import RtosXrce.Kernel.LostWakeups
import RtosXrce.Library.Ring

/-!
# The stages of `queue_send` and `queue_receive`

A queue is a ring buffer, a mutex and two semaphores. `Balance` relates them while a call is under
way: the call owes what it has taken from one semaphore and not yet posted to the other. `Stage`
says what the call owes at each of its statements.
-/

namespace RtosXrce.Kernel

open Library

def MutexId.queue : MutexId → Option Nat
  | lockOf q => some q
  | named _ => none

def SemId.queue : SemId → Option Nat
  | emptyOf q | filledOf q => some q
  | named _ => none

def Obj.queue : Obj → Option Nat
  | mutex m => m.queue
  | sem s => s.queue

/-- The queue a statement works on, or on a part of it. -/
def Stmt.queue : Stmt → Option Nat
  | lockCurrent m | lockTest m _ | lockCompare m _ | lockBoost m _ | lockAddWaiter m _
  | lockBlock m _ | lockTake m _ | lockOwn m _ | lockSave m _ | unlockCurrent m
  | unlockRestore m _ | unlockFree m | unlockDisown m => m.queue
  | waitCurrent s | waitTest s _ | waitAddWaiter s _ | waitBlock s _ | waitTake s
  | postCount s => s.queue
  | wakeTest o _ | wakeReady o _ | wakeClear o => o.queue
  | sendStore q _ | sendTail q | receiveLoad q | receiveHead q _ | receiveReturn q _ => some q
  | _ => none

/-- Code that leaves the queue `q` alone. -/
def Foreign (q : Nat) (code : List Stmt) : Prop := ∀ s ∈ code, s.queue ≠ some q

theorem foreign_append {q : Nat} {succ rest : List Stmt} (hsucc : Foreign q succ)
    (hrest : Foreign q rest) : Foreign q (succ ++ rest) := fun s hs =>
  (List.mem_append.mp hs).elim (hsucc s) (hrest s)

theorem Foreign.tail {q : Nat} {s : Stmt} {rest : List Stmt} (h : Foreign q (s :: rest)) :
    Foreign q rest := fun s hs => h s (List.mem_cons_of_mem _ hs)

/-- The variables that make up a queue, without the waiter lists. -/
structure Snapshot where
  queue : Queue
  empty : Int
  filled : Int
  locked : Bool

def Globals.snapshot (g : Globals) (q : Nat) : Snapshot where
  queue := g.queues q
  empty := (g.sems (.emptyOf q)).count
  filled := (g.sems (.filledOf q)).count
  locked := (g.mutexes (.lockOf q)).locked

theorem Globals.Frame.snapshot {g g' : Globals} (frame : g.Frame g') (q : Nat) :
    g'.snapshot q = g.snapshot q := by
  simp [Globals.snapshot, frame.queues, frame.sems, frame.mutexes]

@[simp]
theorem Globals.snapshot_modifyWaiters (g : Globals) (o : Obj) (f : Waiters → Waiters) (q : Nat) :
    (g.modifyWaiters o f).snapshot q = g.snapshot q := by
  simp [snapshot]

theorem Globals.snapshot_modifyMutex {g : Globals} {m : MutexId} {f : Mutex → Mutex} {q : Nat}
    (h : m = .lockOf q → (f (g.mutexes m)).locked = (g.mutexes m).locked) :
    (g.modifyMutex m f).snapshot q = g.snapshot q := by
  by_cases hm : MutexId.lockOf q = m
  · subst hm
    simpa [snapshot] using h rfl
  · simp [snapshot, hm]

theorem Globals.snapshot_modifySem {g : Globals} {s : SemId} {f : Semaphore → Semaphore} {q : Nat}
    (h : s.queue ≠ some q) : (g.modifySem s f).snapshot q = g.snapshot q := by
  have hempty : SemId.emptyOf q ≠ s := fun hs => h (hs ▸ rfl)
  have hfilled : SemId.filledOf q ≠ s := fun hs => h (hs ▸ rfl)
  simp [snapshot, hempty, hfilled]

theorem Globals.snapshot_modifyQueue {g : Globals} {q' : Nat} {f : Queue → Queue} {q : Nat}
    (h : q' ≠ q) : (g.modifyQueue q' f).snapshot q = g.snapshot q := by
  simp [snapshot, Ne.symm h]

theorem Stmt.exec_snapshot {g g' : Globals} {s : Stmt} {succ : List Stmt} {q : Nat}
    (h : s.exec g = some (g', succ)) (hs : s.queue ≠ some q) : g'.snapshot q = g.snapshot q := by
  cases exec_stores h with
  | lockTake | lockOwn | lockSave | unlockFree | unlockDisown =>
    exact Globals.snapshot_modifyMutex fun hm => absurd (hm ▸ rfl) hs
  | waitTake | postCount => exact Globals.snapshot_modifySem hs
  | lockAddWaiter | waitAddWaiter | wakeClear => exact Globals.snapshot_modifyWaiters _ _ _ _
  | sendStore | sendTail | receiveHead | receiveReturn =>
    exact Globals.snapshot_modifyQueue fun hq => hs (hq ▸ rfl)
  | spawn => simp [Globals.snapshot]
  | _ => rfl

/-- A function goes on with the queue it works on. -/
theorem Stmt.exec_queue {g g' : Globals} {s : Stmt} {succ : List Stmt}
    (h : s.exec g = some (g', succ)) : ∀ s' ∈ succ, s'.queue = none ∨ s'.queue = s.queue := by
  cases s <;>
    simp only [exec, Option.map_eq_some_iff, Option.some.injEq, Prod.mk.injEq, reduceCtorEq,
      Option.ite_none_right_eq_some] at h
  all_goals first
    | obtain ⟨-, rfl⟩ := h
    | obtain ⟨c, -, -, rfl⟩ := h
  all_goals try split
  all_goals repeat' first | exact List.forall_mem_nil _ | refine List.forall_mem_cons.mpr ⟨?_, ?_⟩
  all_goals first
    | exact Or.inl rfl
    | exact Or.inr rfl

theorem Stmt.exec_foreign {g g' : Globals} {s : Stmt} {succ : List Stmt} {q : Nat}
    (h : s.exec g = some (g', succ)) (hs : s.queue ≠ some q) : Foreign q succ := by
  intro s' hs'
  obtain hq | hq := exec_queue h s' hs'
  · rw [hq]
    exact nofun
  · rwa [hq]

/-- What a call owes the queue: a count it has taken, an index it has not moved, an item it has
read and not returned, the lock. -/
structure Debt where
  empty : Nat := 0
  filled : Nat := 0
  tail : Nat := 0
  returning : List Item := []
  locked : Bool := false

def SemId.debt : SemId → Debt
  | emptyOf _ => { empty := 1 }
  | filledOf _ => { filled := 1 }
  | named _ => {}

/-- The queue holds `n` items, and a call owes it `d`. -/
structure Balance (c : Nat) (d : Debt) (n : Nat) (v : Snapshot) : Prop where
  capacity : v.queue.capacity = c
  head : v.queue.head < c
  tail : v.queue.tail < c
  ends : (v.queue.tail + d.tail) % c = (v.queue.head + n) % c
  empty : v.empty + d.empty + n = c
  filled : v.filled + d.filled = n
  free : 0 ≤ v.empty
  full : 0 ≤ v.filled
  locked : v.locked = d.locked
  history : v.queue.sent =
    v.queue.received ++ d.returning ++ Ring.slots v.queue.buffer c v.queue.head n

/-- What `queue_send` or `queue_receive` does once it has the lock, and the semaphore it takes
from. -/
inductive Goal (q : Nat) : Stmt → SemId → Prop where
  | send (x : Item) : Goal q (.sendStore q x) (.emptyOf q)
  | receive : Goal q (.receiveLoad q) (.filledOf q)

/-- The semaphore the call posts to, what it does after that, and the items it returns. -/
inductive Finish (q : Nat) : SemId → List Stmt → List Item → Prop where
  | send : Finish q (.filledOf q) [] []
  | receive (x : Item) : Finish q (.emptyOf q) [.receiveReturn q x] [x]

def Snapshot.count (v : Snapshot) : SemId → Int
  | .emptyOf _ => v.empty
  | .filledOf _ => v.filled
  | .named _ => 0

def Stmt.waitsFor (v : Snapshot) (s : SemId) : Stmt → Prop
  | waitCurrent s' | waitTest s' _ | waitAddWaiter s' _ | waitBlock s' _ => s' = s
  | waitTake s' => s' = s ∧ 0 < v.count s
  | _ => False

def Stmt.enters (m : MutexId) : Stmt → Prop
  | lockCurrent m' | lockTest m' _ | lockTake m' _ => m' = m
  | _ => False

def Stmt.entered (m : MutexId) : Stmt → Prop
  | lockOwn m' _ | lockSave m' _ => m' = m
  | _ => False

def Stmt.leaves (m : MutexId) : Stmt → Prop
  | unlockCurrent m' | unlockRestore m' _ | unlockFree m' => m' = m
  | _ => False

def Stmt.wakesAll (o : Obj) : Stmt → Prop
  | unlockDisown m => .mutex m = o
  | wakeTest o' _ | wakeReady o' _ | wakeClear o' => o' = o
  | _ => False

/-- Code at which a task may be off the processor: away from the queue, or waiting in the first
loop of a call. -/
inductive Resting (q : Nat) : List Stmt → Prop where
  | idle {code : List Stmt} (foreign : Foreign q code) : Resting q code
  | waiting {y goal : Stmt} {s : SemId} {i : Nat} {base : List Stmt}
      (hy : y.yields = true ∨ ∃ b, y = .restoreMask b) (hg : Goal q goal s)
      (hb : Foreign q base) :
      Resting q (y :: .waitTest s i :: .lockCurrent (.lockOf q) :: goal :: base)

/-- What the running code owes the queue. -/
inductive Stage (q : Nat) (v : Snapshot) : List Stmt → Debt → Prop where
  | resting {code : List Stmt} (h : Resting q code) : Stage q v code {}
  | waiting {w goal : Stmt} {s : SemId} {base : List Stmt} (hw : w.waitsFor v s)
      (hg : Goal q goal s) (hb : Foreign q base) :
      Stage q v (w :: .lockCurrent (.lockOf q) :: goal :: base) {}
  | entering {w goal : Stmt} {s : SemId} {base : List Stmt} (hw : w.enters (.lockOf q))
      (hg : Goal q goal s) (hb : Foreign q base) : Stage q v (w :: goal :: base) s.debt
  | entered {w goal : Stmt} {s : SemId} {base : List Stmt} (hw : w.entered (.lockOf q))
      (hg : Goal q goal s) (hb : Foreign q base) :
      Stage q v (w :: goal :: base) { s.debt with locked := true }
  | inside {goal : Stmt} {s : SemId} {base : List Stmt} (hg : Goal q goal s)
      (hb : Foreign q base) : Stage q v (goal :: base) { s.debt with locked := true }
  | stored {base : List Stmt} (hb : Foreign q base) :
      Stage q v (.sendTail q :: base) { filled := 1, tail := 1, locked := true }
  | loaded {x : Item} {base : List Stmt} (hx : x = v.queue.buffer v.queue.head)
      (hb : Foreign q base) :
      Stage q v (.receiveHead q x :: base) { filled := 1, locked := true }
  | leaving {w : Stmt} {s : SemId} {after base : List Stmt} {xs : List Item}
      (hw : w.leaves (.lockOf q)) (hf : Finish q s after xs) (hb : Foreign q base) :
      Stage q v (w :: .postCount s :: (after ++ base))
        { s.debt with returning := xs, locked := true }
  | left {w : Stmt} {s : SemId} {after base : List Stmt} {xs : List Item}
      (hw : w.wakesAll (.mutex (.lockOf q))) (hf : Finish q s after xs) (hb : Foreign q base) :
      Stage q v (w :: .postCount s :: (after ++ base)) { s.debt with returning := xs }
  | posting {s : SemId} {after base : List Stmt} {xs : List Item} (hf : Finish q s after xs)
      (hb : Foreign q base) :
      Stage q v (.postCount s :: (after ++ base)) { s.debt with returning := xs }
  | waking {w : Stmt} {s : SemId} {after base : List Stmt} {xs : List Item}
      (hw : w.wakesAll (.sem s)) (hf : Finish q s after xs) (hb : Foreign q base) :
      Stage q v (w :: (after ++ base)) { returning := xs }
  | returning {x : Item} {base : List Stmt} (hb : Foreign q base) :
      Stage q v (.receiveReturn q x :: base) { returning := [x] }

def Snapshot.setCount (v : Snapshot) (s : SemId) (count : Int) : Snapshot :=
  match s with
  | .emptyOf _ => { v with empty := count }
  | .filledOf _ => { v with filled := count }
  | .named _ => v

namespace Balance

variable {c n : Nat} {d : Debt} {v : Snapshot} {s : SemId} {xs : List Item} {x : Item}

theorem withdraw (bal : Balance c {} n v) (pos : 0 < v.count s) :
    Balance c s.debt n (v.setCount s (v.count s - 1)) := by
  have hempty := bal.empty
  have hfilled := bal.filled
  cases s with
  | named => cases pos
  | emptyOf =>
    simp only [Snapshot.count] at pos
    exact { bal with
      empty := by simp only [Snapshot.setCount, Snapshot.count, SemId.debt] at hempty ⊢; omega
      free := by simp only [Snapshot.setCount, Snapshot.count]; omega }
  | filledOf =>
    simp only [Snapshot.count] at pos
    exact { bal with
      filled := by simp only [Snapshot.setCount, Snapshot.count, SemId.debt] at hfilled ⊢; omega
      full := by simp only [Snapshot.setCount, Snapshot.count]; omega }

theorem deposit (bal : Balance c { s.debt with returning := xs } n v) :
    Balance c { returning := xs } n (v.setCount s (v.count s + 1)) := by
  have hempty := bal.empty
  have hfilled := bal.filled
  have hfree := bal.free
  have hfull := bal.full
  cases s with
  | named => exact { bal with }
  | emptyOf =>
    exact { bal with
      empty := by simp only [Snapshot.setCount, Snapshot.count, SemId.debt] at hempty ⊢; omega
      free := by simp only [Snapshot.setCount, Snapshot.count]; omega }
  | filledOf =>
    exact { bal with
      filled := by simp only [Snapshot.setCount, Snapshot.count, SemId.debt] at hfilled ⊢; omega
      full := by simp only [Snapshot.setCount, Snapshot.count]; omega }

theorem lock (bal : Balance c d n v) (locked : Bool) :
    Balance c { d with locked := locked } n { v with locked := locked } :=
  { bal with locked := rfl }

theorem store (bal : Balance c { empty := 1, locked := true } n v) (x : Item) :
    Balance c { filled := 1, tail := 1, locked := true } (n + 1)
      { v with queue := { v.queue with
          buffer := Function.update v.queue.buffer v.queue.tail x
          sent := v.queue.sent ++ [x] } } := by
  have hempty := bal.empty
  have hfilled := bal.filled
  have hfree := bal.free
  simp only at hempty hfilled
  have room : n < c := by omega
  have hends : v.queue.tail = (v.queue.head + n) % c := by
    rw [← bal.ends]
    exact (Nat.mod_eq_of_lt bal.tail).symm
  refine { bal with
    ends := ?_
    empty := by simp only; omega
    filled := by simp only; omega
    history := ?_ }
  · simp only [hends]
    rw [Nat.mod_add_mod, Nat.add_assoc]
  · have hhistory := bal.history
    simp only [List.append_nil] at hhistory ⊢
    rw [hends, Ring.slots_push room, hhistory, List.append_assoc]

theorem moveTail (bal : Balance c { filled := 1, tail := 1, locked := true } n v) :
    Balance c { filled := 1, locked := true } n
      { v with queue := { v.queue with tail := (v.queue.tail + 1) % v.queue.capacity } } := by
  have hends := bal.ends
  have hpos : 0 < c := Nat.zero_lt_of_lt bal.head
  refine { bal with tail := ?_, ends := ?_ }
  · simp only [bal.capacity]
    exact Nat.mod_lt _ hpos
  · simp only [bal.capacity, Nat.add_zero, Nat.mod_mod]
    exact hends

theorem moveHead (bal : Balance c { filled := 1, locked := true } n v) :
    ∃ m, Balance c
      { empty := 1, returning := [v.queue.buffer v.queue.head], locked := true } m
      { v with queue := { v.queue with head := (v.queue.head + 1) % v.queue.capacity } } := by
  have hempty := bal.empty
  have hfilled := bal.filled
  have hfull := bal.full
  have hends := bal.ends
  have hhistory := bal.history
  have hpos : 0 < c := Nat.zero_lt_of_lt bal.head
  simp only at hempty hfilled
  obtain ⟨m, rfl⟩ : ∃ m, n = m + 1 := ⟨n - 1, by omega⟩
  refine ⟨m, { bal with
    head := ?_
    ends := ?_
    empty := by simp only; omega
    filled := by simp only; omega
    history := ?_ }⟩
  · simp only [bal.capacity]
    exact Nat.mod_lt _ hpos
  · simp only [bal.capacity, Nat.add_zero] at hends ⊢
    rw [hends, Nat.mod_add_mod]
    congr 1
    omega
  · simp only [bal.capacity, List.append_nil] at hhistory ⊢
    rw [hhistory, Ring.slots_pop, Nat.mod_eq_of_lt bal.head]
    simp

theorem deliver (bal : Balance c { returning := [x] } n v) :
    Balance c {} n
      { v with queue := { v.queue with received := v.queue.received ++ [x] } } :=
  { bal with history := by simpa using bal.history }

end Balance

theorem Goal.queue {q : Nat} {goal : Stmt} {s : SemId} (h : Goal q goal s) :
    s.queue = some q := by
  cases h <;> rfl

theorem Finish.queue {q : Nat} {s : SemId} {after : List Stmt} {xs : List Item}
    (h : Finish q s after xs) : s.queue = some q := by
  cases h <;> rfl

namespace Globals

variable {g : Globals} {q : Nat} {s : SemId}

theorem count_snapshot (hs : s.queue = some q) : (g.snapshot q).count s = (g.sems s).count := by
  cases s <;> cases hs <;> rfl

theorem snapshot_setCount (hs : s.queue = some q) (f : Semaphore → Semaphore) :
    (g.modifySem s f).snapshot q = (g.snapshot q).setCount s (f (g.sems s)).count := by
  cases s <;> cases hs <;> simp [snapshot, Snapshot.setCount]

theorem snapshot_locked (f : Mutex → Mutex) : (g.modifyMutex (.lockOf q) f).snapshot q =
    { g.snapshot q with locked := (f (g.mutexes (.lockOf q))).locked } := by
  simp [snapshot]

theorem snapshot_queue (f : Queue → Queue) :
    (g.modifyQueue q f).snapshot q = { g.snapshot q with queue := f (g.queues q) } := by
  simp [snapshot]

end Globals

/-- A wake loop leaves the queue as it is. -/
theorem Stmt.exec_wakesAll {g g' : Globals} {q : Nat} {w : Stmt} {succ : List Stmt} {o : Obj}
    (hw : w.wakesAll o) (he : w.exec g = some (g', succ)) :
    g'.snapshot q = g.snapshot q ∧ (succ = [] ∨ ∃ w', succ = [w'] ∧ w'.wakesAll o) := by
  cases w <;> simp only [Stmt.wakesAll] at hw <;>
    simp only [Stmt.exec, Option.map_eq_some_iff, Option.some.injEq, Prod.mk.injEq] at he <;>
    subst hw
  case unlockDisown m =>
    obtain ⟨rfl, rfl⟩ := he
    exact ⟨Globals.snapshot_modifyMutex fun _ => rfl, Or.inr ⟨_, rfl, rfl⟩⟩
  case wakeTest =>
    obtain ⟨rfl, rfl⟩ := he
    split <;> exact ⟨rfl, Or.inr ⟨_, rfl, rfl⟩⟩
  case wakeReady =>
    obtain ⟨t, -, rfl, rfl⟩ := he
    exact ⟨rfl, Or.inr ⟨_, rfl, rfl⟩⟩
  case wakeClear =>
    obtain ⟨rfl, rfl⟩ := he
    exact ⟨Globals.snapshot_modifyWaiters _ _ _ _, Or.inl rfl⟩

/-- The running code is at some stage of a call, and the queue balances. -/
def Ordered (c q : Nat) (v : Snapshot) (code : List Stmt) : Prop :=
  ∃ d n, Stage q v code d ∧ Balance c d n v

namespace Ordered

variable {c q n : Nat} {g g' : Globals} {w goal : Stmt} {s : SemId} {succ base after : List Stmt}
  {xs : List Item}

theorem exec_waiting (hw : w.waitsFor (g.snapshot q) s) (hg : Goal q goal s) (hb : Foreign q base)
    (bal : Balance c {} n (g.snapshot q)) (he : w.exec g = some (g', succ)) :
    Ordered c q (g'.snapshot q) (succ ++ .lockCurrent (.lockOf q) :: goal :: base) := by
  have hs := hg.queue
  cases w <;> simp only [Stmt.waitsFor] at hw <;>
    simp only [Stmt.exec, Option.map_eq_some_iff, Option.some.injEq, Prod.mk.injEq] at he
  case waitCurrent =>
    obtain ⟨i, -, rfl, rfl⟩ := he
    exact ⟨_, n, .waiting hw hg hb, bal⟩
  case waitTest s' i =>
    subst hw
    obtain ⟨rfl, rfl⟩ := he
    split
    case isTrue => exact ⟨_, n, .waiting rfl hg hb, bal⟩
    case isFalse pos =>
      refine ⟨_, n, .waiting ⟨rfl, ?_⟩ hg hb, bal⟩
      rw [Globals.count_snapshot hs]
      omega
  case waitAddWaiter s' i =>
    obtain ⟨rfl, rfl⟩ := he
    rw [Globals.snapshot_modifyWaiters]
    exact ⟨_, n, .waiting hw hg hb, bal⟩
  case waitBlock s' i =>
    subst hw
    obtain ⟨rfl, rfl⟩ := he
    exact ⟨_, n, .resting (.waiting (Or.inl rfl) hg hb), bal⟩
  case waitTake s' =>
    obtain ⟨rfl, pos⟩ := hw
    obtain ⟨rfl, rfl⟩ := he
    have bal := bal.withdraw pos
    rw [Globals.count_snapshot hs] at bal
    rw [Globals.snapshot_setCount hs]
    exact ⟨_, n, .entering rfl hg hb, bal⟩

theorem exec_entering (hw : w.enters (.lockOf q)) (hg : Goal q goal s) (hb : Foreign q base)
    (bal : Balance c s.debt n (g.snapshot q)) (he : w.exec g = some (g', succ)) :
    Ordered c q (g'.snapshot q) (succ ++ goal :: base) := by
  cases w <;> simp only [Stmt.enters] at hw <;>
    simp only [Stmt.exec, Option.map_eq_some_iff, Option.some.injEq, Prod.mk.injEq] at he <;>
    subst hw
  case lockCurrent =>
    obtain ⟨i, -, rfl, rfl⟩ := he
    exact ⟨_, n, .entering rfl hg hb, bal⟩
  case lockTest =>
    obtain ⟨rfl, rfl⟩ := he
    have free : (g.mutexes (.lockOf q)).locked = false := by
      have := bal.locked
      cases hg <;> exact this
    rw [if_neg (by simp [free])]
    exact ⟨_, n, .entering rfl hg hb, bal⟩
  case lockTake =>
    obtain ⟨rfl, rfl⟩ := he
    rw [Globals.snapshot_locked]
    exact ⟨_, n, .entered rfl hg hb, bal.lock true⟩

theorem exec_entered (hw : w.entered (.lockOf q)) (hg : Goal q goal s) (hb : Foreign q base)
    (bal : Balance c { s.debt with locked := true } n (g.snapshot q))
    (he : w.exec g = some (g', succ)) : Ordered c q (g'.snapshot q) (succ ++ goal :: base) := by
  cases w <;> simp only [Stmt.entered] at hw <;>
    simp only [Stmt.exec, Option.some.injEq, Prod.mk.injEq] at he <;>
    subst hw <;> obtain ⟨rfl, rfl⟩ := he
  case lockOwn =>
    rw [Globals.snapshot_modifyMutex fun _ => rfl]
    exact ⟨_, n, .entered rfl hg hb, bal⟩
  case lockSave =>
    rw [Globals.snapshot_modifyMutex fun _ => rfl]
    exact ⟨_, n, .inside hg hb, bal⟩

theorem exec_inside (hg : Goal q goal s) (hb : Foreign q base)
    (bal : Balance c { s.debt with locked := true } n (g.snapshot q))
    (he : goal.exec g = some (g', succ)) : Ordered c q (g'.snapshot q) (succ ++ base) := by
  cases hg with
  | send x =>
    cases he
    rw [Globals.snapshot_queue]
    exact ⟨_, n + 1, .stored hb, bal.store x⟩
  | receive =>
    cases he
    exact ⟨_, n, .loaded rfl hb, bal⟩

theorem exec_leaving (hw : w.leaves (.lockOf q)) (hf : Finish q s after xs) (hb : Foreign q base)
    (bal : Balance c { s.debt with returning := xs, locked := true } n (g.snapshot q))
    (he : w.exec g = some (g', succ)) :
    Ordered c q (g'.snapshot q) (succ ++ .postCount s :: (after ++ base)) := by
  cases w <;> simp only [Stmt.leaves] at hw <;>
    simp only [Stmt.exec, Option.map_eq_some_iff, Option.some.injEq, Prod.mk.injEq] at he <;>
    subst hw
  case unlockCurrent =>
    obtain ⟨i, -, rfl, rfl⟩ := he
    exact ⟨_, n, .leaving rfl hf hb, bal⟩
  case unlockRestore =>
    obtain ⟨rfl, rfl⟩ := he
    exact ⟨_, n, .leaving rfl hf hb, bal⟩
  case unlockFree =>
    obtain ⟨rfl, rfl⟩ := he
    rw [Globals.snapshot_locked]
    refine ⟨_, n, .left rfl hf hb, ?_⟩
    cases hf <;> exact bal.lock false

theorem exec_resting {code : List Stmt} (h : Resting q (w :: code))
    (bal : Balance c {} n (g.snapshot q)) (he : w.exec g = some (g', succ)) :
    Ordered c q (g'.snapshot q) (succ ++ code) := by
  cases h with
  | idle foreign =>
    have hw := foreign w List.mem_cons_self
    rw [Stmt.exec_snapshot he hw]
    exact ⟨_, n, .resting (.idle (foreign_append (Stmt.exec_foreign he hw) foreign.tail)), bal⟩
  | waiting hy hg hb =>
    obtain hy | ⟨b, rfl⟩ := hy
    case inr => cases he
    case inl =>
      have hq : w.queue ≠ some q := by cases w <;> cases hy <;> exact nofun
      rw [Stmt.exec_snapshot he hq]
      obtain ⟨-, rfl⟩ | ⟨y', rfl, hy'⟩ := (Stmt.exec_yielding he hy).1
      · exact ⟨_, n, .waiting rfl hg hb, bal⟩
      · exact ⟨_, n, .resting (.waiting (Or.inl hy') hg hb), bal⟩

/-- A plain statement of the running task takes the call to its next stage. -/
theorem exec {code : List Stmt} (h : Ordered c q (g.snapshot q) (w :: code))
    (he : w.exec g = some (g', succ)) : Ordered c q (g'.snapshot q) (succ ++ code) := by
  obtain ⟨d, n, stage, bal⟩ := h
  cases stage with
  | resting h => exact exec_resting h bal he
  | waiting hw hg hb => exact exec_waiting hw hg hb bal he
  | entering hw hg hb => exact exec_entering hw hg hb bal he
  | entered hw hg hb => exact exec_entered hw hg hb bal he
  | inside hg hb => exact exec_inside hg hb bal he
  | stored hb =>
    cases he
    rw [Globals.snapshot_queue]
    exact ⟨_, n, .leaving rfl .send hb, bal.moveTail⟩
  | loaded hx hb =>
    subst hx
    cases he
    rw [Globals.snapshot_queue]
    obtain ⟨m, bal⟩ := bal.moveHead
    exact ⟨_, m, .leaving rfl (.receive _) hb, bal⟩
  | leaving hw hf hb => exact exec_leaving hw hf hb bal he
  | left hw hf hb =>
    obtain ⟨hsame, rfl | ⟨w', rfl, hw'⟩⟩ := Stmt.exec_wakesAll (q := q) hw he <;> rw [hsame]
    · exact ⟨_, n, .posting hf hb, bal⟩
    · exact ⟨_, n, .left hw' hf hb, bal⟩
  | @posting s after base xs hf hb =>
    cases he
    rw [Globals.snapshot_setCount hf.queue]
    have bal := bal.deposit
    rw [Globals.count_snapshot hf.queue] at bal
    have stage : ∀ v, Stage q v (.wakeTest (.sem s) 0 :: (after ++ base)) { returning := xs } :=
      fun _ => .waking rfl hf hb
    exact ⟨_, n, stage _, bal⟩
  | @waking w s after base xs hw hf hb =>
    obtain ⟨hsame, rfl | ⟨w', rfl, hw'⟩⟩ := Stmt.exec_wakesAll (q := q) hw he <;> rw [hsame]
    · cases hf with
      | send => exact ⟨_, n, .resting (.idle hb), bal⟩
      | receive x => exact ⟨_, n, .returning hb, bal⟩
    · have stage : Stage q (g.snapshot q) (w' :: (after ++ base)) { returning := xs } :=
        .waking hw' hf hb
      exact ⟨_, n, stage, bal⟩
  | returning hb =>
    cases he
    rw [Globals.snapshot_queue]
    exact ⟨_, n, .resting (.idle hb), bal.deliver⟩

end Ordered

end RtosXrce.Kernel
