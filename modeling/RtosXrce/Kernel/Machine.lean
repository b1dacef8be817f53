import RtosXrce.Kernel.Globals
import RtosXrce.Library.Transition

/-!
# The kernel as a machine that runs one C statement at a time

`Stmt` names the statements of `scheduler_run`, `task_yield`, `task_sleep` and of the primitives
in `rtos/src/sync.c`, each with the locals it uses. A thread is the list of statements an
execution still has to run. `swapcontext` stores the name of the running execution and resumes
the one it finds; a timer tick runs `preempt_handler` in between two statements.
-/

namespace RtosXrce.Kernel

open Library

inductive Stmt where
  /-- the task's own code, between two calls of the kernel -/
  | body
  | terminate (task : Nat)
  | exit
  | spawn (priority : Int)
  | overflow
  | restoreMask (oldMask : Bool)
  -- `scheduler_run`
  | runTest
  | runPick
  | runCurrent (next : Nat)
  | runRunning (next : Nat)
  | runBlock (next : Nat)
  | runCount (next : Nat) (oldMask : Bool)
  | runSwap (next : Nat) (oldMask : Bool)
  | runCanary (next : Nat)
  | runIdle
  -- `task_yield`
  | yieldTest
  | yieldCurrent
  | yieldState (cur : Nat)
  | yieldReady (cur : Nat)
  | yieldBlock (cur : Nat)
  | yieldSwap (cur : Nat) (oldMask : Bool)
  -- `task_sleep`
  | sleepTest (ms : Int)
  | sleepCurrent (ms : Int)
  | sleepWake (cur : Nat) (ms : Int)
  | sleepBlock (cur : Nat)
  -- `mutex_lock`
  | lockCurrent (m : MutexId)
  | lockTest (m : MutexId) (cur : Nat)
  | lockCompare (m : MutexId) (cur : Nat)
  | lockBoost (m : MutexId) (cur : Nat)
  | lockAddWaiter (m : MutexId) (cur : Nat)
  | lockBlock (m : MutexId) (cur : Nat)
  | lockTake (m : MutexId) (cur : Nat)
  | lockOwn (m : MutexId) (cur : Nat)
  | lockSave (m : MutexId) (cur : Nat)
  -- `mutex_unlock`
  | unlockCurrent (m : MutexId)
  | unlockRestore (m : MutexId) (cur : Nat)
  | unlockFree (m : MutexId)
  | unlockDisown (m : MutexId)
  -- `sem_wait` and `sem_post`
  | waitCurrent (s : SemId)
  | waitTest (s : SemId) (cur : Nat)
  | waitAddWaiter (s : SemId) (cur : Nat)
  | waitBlock (s : SemId) (cur : Nat)
  | waitTake (s : SemId)
  | postCount (s : SemId)
  -- the wake loop of `mutex_unlock` and `sem_post`
  | wakeTest (o : Obj) (i : Nat)
  | wakeReady (o : Obj) (i : Nat)
  | wakeClear (o : Obj)
  -- `queue_send` and `queue_receive`
  | sendStore (q : Nat) (item : Item)
  | sendTail (q : Nat)
  | receiveLoad (q : Nat)
  | receiveHead (q : Nat) (item : Item)
  | receiveReturn (q : Nat) (item : Item)
  deriving DecidableEq

/-- What a statement does to the variables, and the statements that follow it in its function.
`none` is a NULL dereference or `abort`. The statements that switch executions or change the
signal mask are left to `Machine.perform`. -/
def Stmt.exec (g : Globals) : Stmt → Option (Globals × List Stmt)
  | terminate task => some (g.setState task .terminated, [])
  | spawn priority => some (g.taskSpawn priority, [])
  | overflow => g.currentIdx.map fun cur =>
      (g.modifyTask cur fun t => { t with canaryOk := false }, [])
  | runTest => some (g, if g.anyTaskActive then [runPick] else [runIdle])
  | runPick => some (g, match g.pickNextReady with
      | none => [runTest]
      | some next => [runCurrent next])
  | runCurrent next => some ({ g with currentIdx := some next }, [runRunning next])
  | runRunning next => some (g.setState next .running, [runBlock next])
  | runCount next oldMask =>
      some ({ g with switchCount := g.switchCount + 1 }, [runSwap next oldMask])
  | runCanary next => if (g.tasks next).canaryOk then some (g, []) else none
  | runIdle => some ({ g with currentIdx := none }, [])
  | yieldTest => some (g, if g.currentIdx = none then [] else [yieldCurrent])
  | yieldCurrent => g.currentIdx.map fun cur => (g, [yieldState cur])
  | yieldState cur =>
      some (g, if (g.tasks cur).state = .running then [yieldReady cur] else [yieldBlock cur])
  | yieldReady cur => some (g.setState cur .ready, [yieldBlock cur])
  | sleepTest ms => some (g, if g.currentIdx = none ∨ ms ≤ 0 then [] else [sleepCurrent ms])
  | sleepCurrent ms => g.currentIdx.map fun cur => (g, [sleepWake cur ms])
  | sleepWake cur ms =>
      let ticksToWait := if ms / g.tickMs ≤ 0 then 1 else (ms / g.tickMs).toNat
      some (g.modifyTask cur fun t => { t with wakeTick := g.tickCount + ticksToWait },
        [sleepBlock cur])
  | sleepBlock cur => some (g.setState cur .blocked, [yieldTest])
  | lockCurrent m => g.currentIdx.map fun cur => (g, [lockTest m cur])
  | lockTest m cur =>
      some (g, if (g.mutexes m).locked then [lockCompare m cur] else [lockTake m cur])
  | lockCompare m cur =>
      some (g, if (g.mutexes m).inheritanceEnabled = true ∧
          ∃ o ∈ (g.mutexes m).owner, (g.tasks cur).priority > (g.tasks o).priority then
        [lockBoost m cur] else [lockAddWaiter m cur])
  | lockBoost m cur => (g.mutexes m).owner.map fun o =>
      (g.modifyTask o fun t => { t with priority := (g.tasks cur).priority },
        [lockAddWaiter m cur])
  | lockAddWaiter m cur => some (g.modifyWaiters (.mutex m) (·.add cur), [lockBlock m cur])
  | lockBlock m cur => some (g.setState cur .blocked, [yieldTest, lockTest m cur])
  | lockTake m cur => some (g.modifyMutex m fun mu => { mu with locked := true }, [lockOwn m cur])
  | lockOwn m cur =>
      some (g.modifyMutex m fun mu => { mu with owner := some cur }, [lockSave m cur])
  | lockSave m cur =>
      some (g.modifyMutex m fun mu => { mu with ownerSavedPriority := (g.tasks cur).priority }, [])
  | unlockCurrent m => g.currentIdx.map fun cur => (g, [unlockRestore m cur])
  | unlockRestore m cur =>
      some (g.modifyTask cur fun t => { t with priority := (g.mutexes m).ownerSavedPriority },
        [unlockFree m])
  | unlockFree m =>
      some (g.modifyMutex m fun mu => { mu with locked := false }, [unlockDisown m])
  | unlockDisown m =>
      some (g.modifyMutex m fun mu => { mu with owner := none }, [wakeTest (.mutex m) 0])
  | waitCurrent s => g.currentIdx.map fun cur => (g, [waitTest s cur])
  | waitTest s cur =>
      some (g, if (g.sems s).count ≤ 0 then [waitAddWaiter s cur] else [waitTake s])
  | waitAddWaiter s cur => some (g.modifyWaiters (.sem s) (·.add cur), [waitBlock s cur])
  | waitBlock s cur => some (g.setState cur .blocked, [yieldTest, waitTest s cur])
  | waitTake s => some (g.modifySem s fun se => { se with count := se.count - 1 }, [])
  | postCount s =>
      some (g.modifySem s fun se => { se with count := se.count + 1 }, [wakeTest (.sem s) 0])
  | wakeTest o i => some (g, if i < (g.waiters o).num then [wakeReady o i] else [wakeClear o])
  | wakeReady o i => ((g.waiters o).slots i).map fun t =>
      (g.setState t .ready, [wakeTest o (i + 1)])
  | wakeClear o => some (g.modifyWaiters o fun w => { w with num := 0 }, [])
  | sendStore q item =>
      some (g.modifyQueue q fun qu =>
        { qu with buffer := Function.update qu.buffer qu.tail item, sent := qu.sent ++ [item] },
        [sendTail q])
  | sendTail q =>
      some (g.modifyQueue q fun qu => { qu with tail := (qu.tail + 1) % qu.capacity },
        [unlockCurrent (.lockOf q), postCount (.filledOf q)])
  | receiveLoad q => some (g, [receiveHead q ((g.queues q).buffer (g.queues q).head)])
  | receiveHead q item =>
      some (g.modifyQueue q fun qu => { qu with head := (qu.head + 1) % qu.capacity },
        [unlockCurrent (.lockOf q), postCount (.emptyOf q), receiveReturn q item])
  | receiveReturn q item =>
      some (g.modifyQueue q fun qu => { qu with received := qu.received ++ [item] }, [])
  | body | exit | restoreMask _ | runBlock _ | runSwap _ _ | yieldBlock _ | yieldSwap _ _ => none

/-- The calls a task body can make. -/
inductive Op where
  | yield
  | sleep (ms : Int)
  | lock (m : MutexId)
  | unlock (m : MutexId)
  | wait (s : SemId)
  | post (s : SemId)
  | send (q : Nat) (item : Item)
  | receive (q : Nat)
  | spawn (priority : Int)
  | overflow
  deriving DecidableEq

def Op.code : Op → List Stmt
  | yield => [.yieldTest]
  | sleep ms => [.sleepTest ms]
  | lock m => [.lockCurrent m]
  | unlock m => [.unlockCurrent m]
  | wait s => [.waitCurrent s]
  | post s => [.postCount s]
  | send q item => [.waitCurrent (.emptyOf q), .lockCurrent (.lockOf q), .sendStore q item]
  | receive q => [.waitCurrent (.filledOf q), .lockCurrent (.lockOf q), .receiveLoad q]
  | spawn priority => [.spawn priority]
  | overflow => [.overflow]

/-- An execution: the statements left to run, the interrupted handler invocations on top of them,
and whether SIGALRM is blocked. `held` is a history: the mutexes whose `mutex_lock` has returned
to this execution and whose `mutex_unlock` it has not started. -/
structure Thread where
  code : List Stmt
  handlers : List Nat
  masked : Bool
  held : List MutexId

/-- `task_trampoline`: the entry function, then the task ends. -/
def Thread.trampoline (i : Nat) : Thread where
  code := [.body, .terminate i, .exit]
  handlers := []
  masked := false
  held := []

def Stmt.heldAfter (held : List MutexId) : Stmt → List MutexId
  | lockSave m _ => m :: held
  | unlockCurrent m => held.erase m
  | _ => held

structure Machine where
  vars : Globals
  cpu : Exec
  threads : Exec → Thread

namespace Machine

/-- The thread that has the processor. -/
def current (k : Machine) : Thread := k.threads k.cpu

/-- The statement it runs next, once the interrupted handlers on top have returned. -/
def next (k : Machine) : Option Stmt := k.current.code.head?

@[simps]
def setThread (k : Machine) (e : Exec) (th : Thread) : Machine :=
  { k with threads := Function.update k.threads e th }

/-- `swapcontext(&g_tasks[cur]->context, &g_sched_ctx)`. -/
@[simps]
def swapToSched (k : Machine) (cur : Nat) : Machine :=
  { k with vars := k.vars.modifyTask cur fun t => { t with context := k.cpu },
           cpu := k.vars.schedCtx }

/-- `swapcontext(&g_sched_ctx, &g_tasks[next]->context)`. -/
@[simps]
def swapToTask (k : Machine) (next : Nat) : Machine :=
  { k with vars := { k.vars with schedCtx := k.cpu }, cpu := (k.vars.tasks next).context }

/-- Run the statement `s` of the current thread, with `rest` to run after it. -/
def perform (k : Machine) (s : Stmt) (rest : List Stmt) : Option Machine :=
  let th := k.current
  match s with
  | .body => some (k.setThread k.cpu { th with code := rest })
  | .restoreMask oldMask => some (k.setThread k.cpu { th with code := rest, masked := oldMask })
  | .runBlock next =>
    some (k.setThread k.cpu { th with code := .runCount next th.masked :: rest, masked := true })
  | .yieldBlock cur =>
    some (k.setThread k.cpu { th with code := .yieldSwap cur th.masked :: rest, masked := true })
  | .runSwap next oldMask =>
    some ((k.setThread k.cpu
      { th with code := .restoreMask oldMask :: .runCanary next :: .runTest :: rest }).swapToTask
        next)
  | .yieldSwap cur oldMask =>
    some ((k.setThread k.cpu { th with code := .restoreMask oldMask :: rest }).swapToSched cur)
  | .exit => some { k.setThread k.cpu { th with code := [] } with cpu := k.vars.schedCtx }
  | s => (s.exec k.vars).map fun (g, succ) =>
    { k.setThread k.cpu { th with code := succ ++ rest, held := s.heldAfter th.held } with
      vars := g }

/-- The end of an interrupted `preempt_handler`. -/
@[simps]
def handlerReturn (k : Machine) (cur : Nat) (handlers : List Nat) : Machine :=
  { k.setThread k.cpu { k.current with handlers := handlers, masked := false } with
    vars := k.vars.modifyTask cur fun t =>
      { t with pendingPreemptions := t.pendingPreemptions - 1 } }

/-- A timer tick: `preempt_handler`, with its `swapcontext` where it gets that far. -/
def tick (k : Machine) : Machine :=
  match k.vars.preemptHandler with
  | (g, none) => { k with vars := g }
  | (g, some (cur, next)) =>
    let g := g.modifyTask cur fun t => { t with context := k.cpu }
    { k.setThread k.cpu { k.current with
        handlers := cur :: k.current.handlers, masked := true } with
      vars := g, cpu := (g.tasks next).context }

inductive Action where
  /-- the next statement; at `body` this is the return of the task's entry function -/
  | exec
  | call (op : Op)
  | tick
  deriving DecidableEq

/-- `n` statements, then each action with the statements that follow it. -/
def script (n : Nat) (actions : List (Action × Nat)) : List Action :=
  List.replicate n .exec ++ actions.flatMap fun (a, m) => a :: List.replicate m .exec

def step (k : Machine) : Action → Option Machine
  | .exec =>
    match k.current.handlers with
    | cur :: handlers => some (k.handlerReturn cur handlers)
    | [] =>
      match k.current.code with
      | [] => none
      | s :: rest => k.perform s rest
  | .call op =>
    if k.current.handlers = [] ∧ k.current.code.head? = some .body then
      some (k.setThread k.cpu { k.current with code := op.code ++ k.current.code })
    else none
  | .tick => if k.current.masked then none else some k.tick

def system : System Machine Action where
  step := step

end Machine

/-- What `main` sets up before `scheduler_run`: the tasks with their priorities, the objects, and
whether preemption is on. -/
structure Config where
  priorities : List Int
  few : priorities.length ≤ schedMaxTasks
  preemptEnabled : Bool
  tickMs : Nat
  ticksPerSlice : Nat
  inheritance : Nat → Bool
  initialCount : Nat → Int
  capacity : Nat → Nat
  buffer : Nat → Nat → Item

namespace Config

/-- `g_sched_ctx` is all zero until the first `swapcontext` to a task stores `scheduler_run` in it;
`.sched` stands there from the start. It makes a difference where a forced switch hits the first
dispatch before that store. -/
def vars (c : Config) : Globals where
  tasks i := Task.create i (c.priorities.getD i 0)
  numTasks := c.priorities.length
  currentIdx := none
  schedCtx := .sched
  switchCount := 0
  preemptEnabled := c.preemptEnabled
  tickCount := 0
  tickMs := c.tickMs
  ticksPerSlice := c.ticksPerSlice
  ticksSinceSwitch := 0
  mutexes
    | .named n => Mutex.init (c.inheritance n)
    | .lockOf _ => Mutex.init true
  sems
    | .named n => Semaphore.init (c.initialCount n)
    | .emptyOf q => Semaphore.init (c.capacity q)
    | .filledOf _ => Semaphore.init 0
  queues q := Queue.init (c.buffer q) (c.capacity q)

/-- The call of `scheduler_run`. -/
def start (c : Config) : Machine where
  vars := c.vars
  cpu := .sched
  threads
    | .sched => { code := [.runTest], handlers := [], masked := false, held := [] }
    | .task i => Thread.trampoline i

/-- Two tasks of one priority, preempted at every tick. -/
def twoTasks : Config where
  priorities := [0, 0]
  few := by decide
  preemptEnabled := true
  tickMs := 1
  ticksPerSlice := 1
  inheritance _ := true
  initialCount _ := 0
  capacity _ := 1
  buffer _ _ := 0

/-- A task of low priority and one of high priority, without preemption. -/
def lowHigh : Config where
  priorities := [1, 10]
  few := by decide
  preemptEnabled := false
  tickMs := 1
  ticksPerSlice := 1
  inheritance _ := true
  initialCount _ := 0
  capacity _ := 1
  buffer _ _ := 0

end Config

end RtosXrce.Kernel
