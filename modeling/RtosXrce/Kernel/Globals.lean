import Mathlib.Data.List.Basic
import Mathlib.Logic.Function.Basic
import Mathlib.Tactic.Simps.Basic

/-!
# The kernel's variables

The task table and the statics of `rtos/src/scheduler.c`, and the objects of `rtos/src/sync.c`.
A task is named by its index in `g_tasks`, a saved `ucontext_t` by the execution it was captured
from. A queue owns its mutex and semaphores, so these have names of their own.
-/

namespace RtosXrce.Kernel

/-- `SCHED_MAX_TASKS`. -/
abbrev schedMaxTasks : Nat := 32

/-- `task_state_t`. -/
inductive TaskState where
  | ready
  | running
  | blocked
  | terminated
  deriving DecidableEq

/-- The flows of control that share the processor: `scheduler_run` and the task bodies. -/
inductive Exec where
  | sched
  | task (i : Nat)
  deriving DecidableEq

/-- `task_t`, as far as the scheduler and the synchronisation objects use it. `created` is a
history: the priority given to `task_create`. The tick counters are `uint64_t`; that they wrap after
2^64 ticks is left out. -/
structure Task where
  context : Exec
  state : TaskState
  priority : Int
  wakeTick : Nat
  ticksRun : Nat
  ticksReady : Nat
  pendingPreemptions : Int
  canaryOk : Bool
  created : Int

/-- `task_create`. -/
def Task.create (i : Nat) (priority : Int) : Task where
  context := .task i
  state := .ready
  priority := priority
  wakeTick := 0
  ticksRun := 0
  ticksReady := 0
  pendingPreemptions := 0
  canaryOk := true
  created := priority

inductive MutexId where
  | named (n : Nat)
  | lockOf (q : Nat)
  deriving DecidableEq

inductive SemId where
  | named (n : Nat)
  | emptyOf (q : Nat)
  | filledOf (q : Nat)
  deriving DecidableEq

/-- `waiters` and `num_waiters`; the entries from `num` on are left over from earlier use. -/
structure Waiters where
  slots : Nat → Option Nat
  num : Nat

namespace Waiters

def empty : Waiters where
  slots _ := none
  num := 0

instance : Membership Nat Waiters where
  mem w t := ∃ i < w.num, w.slots i = some t

instance (t : Nat) (w : Waiters) : Decidable (t ∈ w) :=
  inferInstanceAs (Decidable (∃ i < w.num, w.slots i = some t))

/-- `add_waiter` and `sem_add_waiter`. -/
def add (w : Waiters) (t : Nat) : Waiters :=
  if t ∈ w then w
  else if w.num < schedMaxTasks then
    { slots := Function.update w.slots w.num (some t), num := w.num + 1 }
  else w

end Waiters

/-- `mutex_t`. -/
structure Mutex where
  locked : Bool
  owner : Option Nat
  ownerSavedPriority : Int
  inheritanceEnabled : Bool
  waiters : Waiters

/-- `mutex_init`. -/
def Mutex.init (enablePriorityInheritance : Bool) : Mutex where
  locked := false
  owner := none
  ownerSavedPriority := 0
  inheritanceEnabled := enablePriorityInheritance
  waiters := .empty

/-- `semaphore_t`. The count is an `int`; its overflow, which C leaves undefined, is left out. -/
structure Semaphore where
  count : Int
  waiters : Waiters

/-- `sem_init`. -/
def Semaphore.init (initialCount : Int) : Semaphore where
  count := initialCount
  waiters := .empty

/-- What a `void *` slot holds. -/
abbrev Item := Nat

/-- `queue_t` without its embedded mutex and semaphores. `sent` and `received` are histories: the
items stored by `queue_send` and returned by `queue_receive`, oldest first. -/
structure Queue where
  buffer : Nat → Item
  capacity : Nat
  head : Nat
  tail : Nat
  sent : List Item
  received : List Item

/-- The index part of `queue_init`. -/
def Queue.init (buffer : Nat → Item) (capacity : Nat) : Queue where
  buffer := buffer
  capacity := capacity
  head := 0
  tail := 0
  sent := []
  received := []

/-- The objects with a waiter array. -/
inductive Obj where
  | mutex (m : MutexId)
  | sem (s : SemId)
  deriving DecidableEq

/-- The statics. `g_tick_count` and `g_switch_count` are `uint64_t`; that they wrap is left out. -/
structure Globals where
  tasks : Nat → Task
  numTasks : Nat
  currentIdx : Option Nat
  schedCtx : Exec
  switchCount : Nat
  preemptEnabled : Bool
  tickCount : Nat
  tickMs : Nat
  ticksPerSlice : Nat
  ticksSinceSwitch : Nat
  mutexes : MutexId → Mutex
  sems : SemId → Semaphore
  queues : Nat → Queue

namespace Globals

@[simps]
def modifyTask (g : Globals) (i : Nat) (f : Task → Task) : Globals :=
  { g with tasks := Function.update g.tasks i (f (g.tasks i)) }

@[simps]
def modifyMutex (g : Globals) (m : MutexId) (f : Mutex → Mutex) : Globals :=
  { g with mutexes := Function.update g.mutexes m (f (g.mutexes m)) }

@[simps]
def modifySem (g : Globals) (s : SemId) (f : Semaphore → Semaphore) : Globals :=
  { g with sems := Function.update g.sems s (f (g.sems s)) }

@[simps]
def modifyQueue (g : Globals) (q : Nat) (f : Queue → Queue) : Globals :=
  { g with queues := Function.update g.queues q (f (g.queues q)) }

@[simp]
def setState (g : Globals) (i : Nat) (state : TaskState) : Globals :=
  g.modifyTask i fun t => { t with state := state }

def waiters (g : Globals) : Obj → Waiters
  | .mutex m => (g.mutexes m).waiters
  | .sem s => (g.sems s).waiters

def modifyWaiters (g : Globals) (o : Obj) (f : Waiters → Waiters) : Globals :=
  match o with
  | .mutex m => g.modifyMutex m fun mu => { mu with waiters := f mu.waiters }
  | .sem s => g.modifySem s fun se => { se with waiters := f se.waiters }

section Waiters

variable (g : Globals) (o : Obj) (f : Waiters → Waiters)

@[simp]
theorem modifyWaiters_tasks : (g.modifyWaiters o f).tasks = g.tasks := by cases o <;> rfl

@[simp]
theorem modifyWaiters_numTasks : (g.modifyWaiters o f).numTasks = g.numTasks := by cases o <;> rfl

@[simp]
theorem modifyWaiters_currentIdx : (g.modifyWaiters o f).currentIdx = g.currentIdx := by
  cases o <;> rfl

@[simp]
theorem modifyWaiters_schedCtx : (g.modifyWaiters o f).schedCtx = g.schedCtx := by
  cases o <;> rfl

@[simp]
theorem modifyWaiters_queues : (g.modifyWaiters o f).queues = g.queues := by cases o <;> rfl

@[simp]
theorem modifyWaiters_locked (m : MutexId) :
    ((g.modifyWaiters o f).mutexes m).locked = (g.mutexes m).locked := by
  cases o with
  | mutex m' => by_cases h : m = m' <;> simp [modifyWaiters, h]
  | sem => rfl

@[simp]
theorem modifyWaiters_owner (m : MutexId) :
    ((g.modifyWaiters o f).mutexes m).owner = (g.mutexes m).owner := by
  cases o with
  | mutex m' => by_cases h : m = m' <;> simp [modifyWaiters, h]
  | sem => rfl

@[simp]
theorem modifyWaiters_ownerSavedPriority (m : MutexId) :
    ((g.modifyWaiters o f).mutexes m).ownerSavedPriority = (g.mutexes m).ownerSavedPriority := by
  cases o with
  | mutex m' => by_cases h : m = m' <;> simp [modifyWaiters, h]
  | sem => rfl

@[simp]
theorem modifyWaiters_inheritanceEnabled (m : MutexId) :
    ((g.modifyWaiters o f).mutexes m).inheritanceEnabled = (g.mutexes m).inheritanceEnabled := by
  cases o with
  | mutex m' => by_cases h : m = m' <;> simp [modifyWaiters, h]
  | sem => rfl

@[simp]
theorem modifyWaiters_count (s : SemId) :
    ((g.modifyWaiters o f).sems s).count = (g.sems s).count := by
  cases o with
  | mutex => rfl
  | sem s' => by_cases h : s = s' <;> simp [modifyWaiters, h]

theorem waiters_modifyWaiters (o' : Obj) :
    (g.modifyWaiters o f).waiters o' = if o' = o then f (g.waiters o) else g.waiters o' := by
  cases o with
  | mutex m =>
    cases o' with
    | mutex m' => by_cases h : m' = m <;> simp [modifyWaiters, waiters, h]
    | sem s' => rfl
  | sem s =>
    cases o' with
    | mutex m' => rfl
    | sem s' => by_cases h : s' = s <;> simp [modifyWaiters, waiters, h]

@[simp]
theorem waiters_modifyTask (i : Nat) (h : Task → Task) :
    (g.modifyTask i h).waiters o = g.waiters o := by
  cases o <;> rfl

variable {g o}

theorem waiters_modifyMutex {m : MutexId} {h : Mutex → Mutex}
    (hh : (h (g.mutexes m)).waiters = (g.mutexes m).waiters) :
    (g.modifyMutex m h).waiters o = g.waiters o := by
  cases o with
  | mutex m' =>
    by_cases hm : m' = m
    · subst hm
      simpa [waiters] using hh
    · simp [waiters, hm]
  | sem => rfl

theorem waiters_modifySem {s : SemId} {h : Semaphore → Semaphore}
    (hh : (h (g.sems s)).waiters = (g.sems s).waiters) :
    (g.modifySem s h).waiters o = g.waiters o := by
  cases o with
  | mutex => rfl
  | sem s' =>
    by_cases hs : s' = s
    · subst hs
      simpa [waiters] using hh
    · simp [waiters, hs]

end Waiters

/-- The first loop of `pick_next_ready`: the best priority of a READY task. -/
def bestPriority (g : Globals) : Option Int :=
  (List.range g.numTasks).foldl
    (fun best i =>
      if (g.tasks i).state = .ready ∧ ∀ b ∈ best, b < (g.tasks i).priority then
        some (g.tasks i).priority
      else best)
    none

/-- `pick_next_ready`. -/
def pickNextReady (g : Globals) : Option Nat :=
  match g.bestPriority with
  | none => none
  | some best =>
    let start := match g.currentIdx with
      | none => 0
      | some c => (c + 1) % g.numTasks
    ((List.range g.numTasks).map fun i => (start + i) % g.numTasks).find? fun idx =>
      (g.tasks idx).state = .ready ∧ (g.tasks idx).priority = best

/-- `any_task_active`. -/
def anyTaskActive (g : Globals) : Bool :=
  (List.range g.numTasks).any fun i => (g.tasks i).state ≠ .terminated

/-- `scheduler_add_task` of a task fresh from `task_create`. -/
def taskSpawn (g : Globals) (priority : Int) : Globals :=
  if g.numTasks ≥ schedMaxTasks then g
  else
    { g with
      tasks := Function.update g.tasks g.numTasks (Task.create g.numTasks priority)
      numTasks := g.numTasks + 1 }

section Spawn

variable (g : Globals) (priority : Int)

@[simp]
theorem taskSpawn_currentIdx : (g.taskSpawn priority).currentIdx = g.currentIdx := by
  unfold taskSpawn; split <;> rfl

@[simp]
theorem taskSpawn_schedCtx : (g.taskSpawn priority).schedCtx = g.schedCtx := by
  unfold taskSpawn; split <;> rfl

@[simp]
theorem taskSpawn_mutexes : (g.taskSpawn priority).mutexes = g.mutexes := by
  unfold taskSpawn; split <;> rfl

@[simp]
theorem taskSpawn_sems : (g.taskSpawn priority).sems = g.sems := by
  unfold taskSpawn; split <;> rfl

@[simp]
theorem taskSpawn_queues : (g.taskSpawn priority).queues = g.queues := by
  unfold taskSpawn; split <;> rfl

@[simp]
theorem waiters_taskSpawn (o : Obj) : (g.taskSpawn priority).waiters o = g.waiters o := by
  cases o <;> simp [waiters]

theorem taskSpawn_tasks_of_lt {i : Nat} (h : i < g.numTasks) :
    (g.taskSpawn priority).tasks i = g.tasks i := by
  unfold taskSpawn
  split
  · rfl
  · exact Function.update_of_ne (by omega) _ _

variable {g priority}

/-- The only entry that changes is that of the new task, which is READY. -/
theorem taskSpawn_tasks_of_not_ready {i : Nat}
    (h : ((g.taskSpawn priority).tasks i).state ≠ .ready) :
    (g.taskSpawn priority).tasks i = g.tasks i := by
  unfold taskSpawn at h ⊢
  split at h
  case isTrue full => rw [if_pos full]
  case isFalse room =>
    have hne : i ≠ g.numTasks := by
      rintro rfl
      simp [Task.create] at h
    rw [if_neg room]
    exact Function.update_of_ne hne _ _

end Spawn

/-- One turn of the loop of `update_tick_bookkeeping`. -/
def tickTask (tickCount : Nat) (t : Task) : Task :=
  match t.state with
  | .running => { t with ticksRun := t.ticksRun + 1 }
  | .ready => { t with ticksReady := t.ticksReady + 1 }
  | .blocked =>
    if t.wakeTick ≠ 0 ∧ tickCount ≥ t.wakeTick then { t with wakeTick := 0, state := .ready }
    else t
  | .terminated => t

/-- `update_tick_bookkeeping`. -/
def updateTickBookkeeping (g : Globals) : Globals :=
  { g with
    tasks := fun i => if i < g.numTasks then tickTask g.tickCount (g.tasks i) else g.tasks i }

/-- `preempt_handler` up to its `swapcontext`, with the tasks to switch from and to where it gets
that far. -/
def preemptHandler (g : Globals) : Globals × Option (Nat × Nat) :=
  let g := { g with tickCount := g.tickCount + 1 }
  let g := g.updateTickBookkeeping
  match g.currentIdx with
  | none => (g, none)
  | some cur =>
    if g.preemptEnabled = false then (g, none)
    else if (g.tasks cur).state ≠ .running then (g, none)
    else if (g.tasks cur).pendingPreemptions > 0 then (g, none)
    else
      let g := { g with ticksSinceSwitch := g.ticksSinceSwitch + 1 }
      if g.ticksSinceSwitch < g.ticksPerSlice then (g, none)
      else
        let g := { g with ticksSinceSwitch := 0 }
        let g := g.setState cur .ready
        match g.pickNextReady with
        | none => (g.setState cur .running, none)
        | some next =>
          let g := { g with currentIdx := some next }
          let g := g.setState next .running
          let g := g.modifyTask cur fun t =>
            { t with pendingPreemptions := t.pendingPreemptions + 1 }
          ({ g with switchCount := g.switchCount + 1 }, some (cur, next))

end Globals

end RtosXrce.Kernel
