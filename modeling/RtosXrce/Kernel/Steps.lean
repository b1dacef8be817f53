import RtosXrce.Kernel.Machine

/-!
# What a machine step can do

`step_cases` lists the ways a step can go, `preemptHandler_cases` those of the timer's handler, and
`Stmt.exec_stores` what a plain statement can do to the variables. `step_moves` sums up what every
invariant needs: only the thread that had the processor moves, and only a plain statement touches
the synchronisation objects.
-/

namespace RtosXrce.Kernel

open Library

namespace Machine

variable {k k' : Machine} {a : Action}

/-- The machine after the statement `s` of the current thread has left the variables `g` and is
followed by `succ`. -/
@[simps]
def advance (k : Machine) (s : Stmt) (g : Globals) (code : List Stmt) : Machine :=
  { k.setThread k.cpu
      { k.current with code := code, held := s.heldAfter k.current.held } with vars := g }

/-- The ways a step can go. -/
inductive Step (k : Machine) : Action → Machine → Prop where
  | handlerReturn {cur : Nat} {handlers : List Nat} (hh : k.current.handlers = cur :: handlers) :
      Step k .exec (k.handlerReturn cur handlers)
  | entryReturn {rest : List Stmt} (hh : k.current.handlers = [])
      (hc : k.current.code = .body :: rest) :
      Step k .exec (k.setThread k.cpu { k.current with code := rest })
  | restoreMask {b : Bool} {rest : List Stmt} (hh : k.current.handlers = [])
      (hc : k.current.code = .restoreMask b :: rest) :
      Step k .exec (k.setThread k.cpu { k.current with code := rest, masked := b })
  | runBlock {next : Nat} {rest : List Stmt} (hh : k.current.handlers = [])
      (hc : k.current.code = .runBlock next :: rest) :
      Step k .exec (k.setThread k.cpu
        { k.current with code := .runCount next k.current.masked :: rest, masked := true })
  | yieldBlock {cur : Nat} {rest : List Stmt} (hh : k.current.handlers = [])
      (hc : k.current.code = .yieldBlock cur :: rest) :
      Step k .exec (k.setThread k.cpu
        { k.current with code := .yieldSwap cur k.current.masked :: rest, masked := true })
  | runSwap {next : Nat} {b : Bool} {rest : List Stmt} (hh : k.current.handlers = [])
      (hc : k.current.code = .runSwap next b :: rest) :
      Step k .exec ((k.setThread k.cpu
        { k.current with code := .restoreMask b :: .runCanary next :: .runTest :: rest }).swapToTask
          next)
  | yieldSwap {cur : Nat} {b : Bool} {rest : List Stmt} (hh : k.current.handlers = [])
      (hc : k.current.code = .yieldSwap cur b :: rest) :
      Step k .exec ((k.setThread k.cpu
        { k.current with code := .restoreMask b :: rest }).swapToSched cur)
  | exit {rest : List Stmt} (hh : k.current.handlers = []) (hc : k.current.code = .exit :: rest) :
      Step k .exec { k.setThread k.cpu { k.current with code := [] } with cpu := k.vars.schedCtx }
  | plain {s : Stmt} {rest succ : List Stmt} {g : Globals} (hh : k.current.handlers = [])
      (hc : k.current.code = s :: rest) (he : s.exec k.vars = some (g, succ)) :
      Step k .exec (k.advance s g (succ ++ rest))
  | call {op : Op} {rest : List Stmt} (hh : k.current.handlers = [])
      (hc : k.current.code = .body :: rest) :
      Step k (.call op) (k.setThread k.cpu { k.current with code := op.code ++ .body :: rest })
  | tick (hm : k.current.masked = false) : Step k .tick k.tick

theorem step_perform {s : Stmt} {rest : List Stmt} (hh : k.current.handlers = [])
    (hc : k.current.code = s :: rest) (h : k.perform s rest = some k') : Step k .exec k' := by
  unfold perform at h
  split at h
  case h_1 => cases h; exact .entryReturn hh hc
  case h_2 => cases h; exact .restoreMask hh hc
  case h_3 => cases h; exact .runBlock hh hc
  case h_4 => cases h; exact .yieldBlock hh hc
  case h_5 => cases h; exact .runSwap hh hc
  case h_6 => cases h; exact .yieldSwap hh hc
  case h_7 => cases h; exact .exit hh hc
  case h_8 =>
    obtain ⟨⟨g, succ⟩, he, rfl⟩ := Option.map_eq_some_iff.mp h
    exact .plain hh hc he

theorem step_cases (h : system.step k a = some k') : Step k a k' := by
  cases a with
  | exec =>
    simp only [system, step] at h
    split at h
    case h_1 cur handlers hh => cases h; exact .handlerReturn hh
    case h_2 hh =>
      split at h
      case h_1 => cases h
      case h_2 s rest hc => exact step_perform hh hc h
  | call op =>
    simp only [system, step] at h
    split at h
    case isTrue hcall =>
      obtain ⟨hh, hb⟩ := hcall
      obtain ⟨rest, hc⟩ := List.head?_eq_some_iff.mp hb
      cases h
      rw [hc]
      exact .call hh hc
    case isFalse => cases h
  | tick =>
    simp only [system, step] at h
    split at h
    case isTrue => cases h
    case isFalse hm => cases h; exact .tick (by simpa using hm)

end Machine

/-- What follows a statement that switches executions or changes the signal mask. -/
def Stmt.control (masked : Bool) : Stmt → Option (List Stmt)
  | body | restoreMask _ => some []
  | runBlock next => some [runCount next masked]
  | yieldBlock cur => some [yieldSwap cur masked]
  | runSwap next oldMask => some [restoreMask oldMask, runCanary next, runTest]
  | yieldSwap _ oldMask => some [restoreMask oldMask]
  | _ => none

/-- The execution that has the processor after a statement. -/
def Stmt.goesTo (k : Machine) : Stmt → Exec
  | runSwap next _ => (k.vars.tasks next).context
  | yieldSwap _ _ => k.vars.schedCtx
  | _ => k.cpu

namespace Globals

theorem modifyTask_field {α : Type} {g : Globals} {c : Nat} {f : Task → Task} (field : Task → α)
    (hf : field (f (g.tasks c)) = field (g.tasks c)) (i : Nat) :
    field ((g.modifyTask c f).tasks i) = field (g.tasks i) := by
  by_cases h : i = c
  · subst h
    simpa using hf
  · simp [h]

theorem pickNextReady_ready {g : Globals} {i : Nat} (h : g.pickNextReady = some i) :
    i < g.numTasks ∧ (g.tasks i).state = .ready := by
  unfold pickNextReady at h
  split at h
  · cases h
  · have hmem := List.mem_of_find?_eq_some h
    have hprop := List.find?_some h
    obtain ⟨j, hj, rfl⟩ := List.mem_map.mp hmem
    have hpos : 0 < g.numTasks := by
      have := List.mem_range.mp hj
      omega
    exact ⟨Nat.mod_lt _ hpos, (by simpa using hprop : _ ∧ _).1⟩

/-- The variables once the tick has been counted, with `n` ticks in the current slice. -/
def ticked (g : Globals) (n : Nat) : Globals :=
  { ({ g with tickCount := g.tickCount + 1 } : Globals).updateTickBookkeeping with
    ticksSinceSwitch := n }

/-- The variables at the `swapcontext` of `preempt_handler`. -/
def switched (g : Globals) (cur next : Nat) : Globals :=
  let g := { (g.ticked 0).setState cur .ready with currentIdx := some next }
  let g := (g.setState next .running).modifyTask cur fun t =>
    { t with pendingPreemptions := t.pendingPreemptions + 1 }
  { g with switchCount := g.switchCount + 1 }

theorem preemptHandler_cases (g : Globals) :
    (∃ n, (n = g.ticksSinceSwitch ∨ n = g.ticksSinceSwitch + 1 ∧
        ∃ cur ∈ g.currentIdx, ((g.ticked 0).tasks cur).state = .running) ∧
      g.preemptHandler = (g.ticked n, none)) ∨
    (∃ cur, g.currentIdx = some cur ∧ ((g.ticked 0).tasks cur).state = .running ∧
      g.preemptHandler = (((g.ticked 0).setState cur .ready).setState cur .running, none)) ∨
    (∃ cur next, g.currentIdx = some cur ∧ ((g.ticked 0).tasks cur).state = .running ∧
      ((g.ticked 0).setState cur .ready).pickNextReady = some next ∧
      g.preemptHandler = (g.switched cur next, some (cur, next))) := by
  generalize hp : g.preemptHandler = p
  unfold preemptHandler at hp
  dsimp only at hp
  split at hp
  case h_1 => exact Or.inl ⟨_, Or.inl rfl, hp.symm⟩
  case h_2 cur hidx =>
    split at hp
    case isTrue => exact Or.inl ⟨_, Or.inl rfl, hp.symm⟩
    case isFalse =>
      split at hp
      case isTrue => exact Or.inl ⟨_, Or.inl rfl, hp.symm⟩
      case isFalse hrun =>
        have hrun : ((g.ticked 0).tasks cur).state = .running := not_not.mp hrun
        split at hp
        case isTrue => exact Or.inl ⟨_, Or.inl rfl, hp.symm⟩
        case isFalse =>
          split at hp
          case isTrue => exact Or.inl ⟨_, Or.inr ⟨rfl, cur, hidx, hrun⟩, hp.symm⟩
          case isFalse =>
            split at hp
            case h_1 => exact Or.inr (Or.inl ⟨cur, hidx, hrun, hp.symm⟩)
            case h_2 next hpick => exact Or.inr (Or.inr ⟨cur, next, hidx, hrun, hpick, hp.symm⟩)

/-- What every step leaves alone that does not run a plain statement. -/
structure Frame (g g' : Globals) : Prop where
  numTasks : g'.numTasks = g.numTasks
  mutexes : g'.mutexes = g.mutexes
  sems : g'.sems = g.sems
  queues : g'.queues = g.queues
  priority : ∀ i, (g'.tasks i).priority = (g.tasks i).priority
  created : ∀ i, (g'.tasks i).created = (g.tasks i).created
  blocked : ∀ i, (g'.tasks i).state = .blocked → (g.tasks i).state = .blocked
  wakeTick : ∀ i, (g.tasks i).state ≠ .blocked ∨ (g'.tasks i).state = .blocked →
    (g'.tasks i).wakeTick = (g.tasks i).wakeTick

theorem Frame.refl (g : Globals) : Frame g g :=
  ⟨rfl, rfl, rfl, rfl, fun _ => rfl, fun _ => rfl, fun _ h => h, fun _ _ => rfl⟩

theorem Frame.modifyTask {g g' : Globals} (h : Frame g g') (c : Nat) (f : Task → Task)
    (hf : ∀ t, (f t).priority = t.priority ∧ (f t).created = t.created ∧
      (f t).wakeTick = t.wakeTick ∧ ((f t).state = .blocked → t.state = .blocked)) :
    Frame g (g'.modifyTask c f) := by
  refine ⟨h.numTasks, h.mutexes, h.sems, h.queues, fun i => ?_, fun i => ?_, fun i => ?_,
    fun i => ?_⟩
  all_goals
    have := h.priority i
    have := h.created i
    have := h.blocked i
    have := h.wakeTick i
    have := hf (g'.tasks i)
    by_cases hi : i = c
    · subst hi
      simp
      grind
    · simp [hi]
      grind

theorem Frame.context {g g' : Globals} (h : Frame g g') (c : Nat) (e : Exec) :
    Frame g (g'.modifyTask c fun t => { t with context := e }) :=
  h.modifyTask c _ (by simp)

/-- What `preempt_handler` leaves alone up to its `swapcontext`. -/
structure HandlerFrame (g g' : Globals) : Prop extends Frame g g' where
  schedCtx : g'.schedCtx = g.schedCtx
  context : ∀ i, (g'.tasks i).context = (g.tasks i).context

theorem handlerFrame_ticked (g : Globals) (n : Nat) : HandlerFrame g (g.ticked n) := by
  have htask : ∀ i, ((g.ticked n).tasks i) = g.tasks i ∨
      ((g.ticked n).tasks i) = tickTask (g.tickCount + 1) (g.tasks i) := by
    intro i
    simp only [ticked, updateTickBookkeeping]
    split
    · exact Or.inr rfl
    · exact Or.inl rfl
  refine ⟨⟨rfl, rfl, rfl, rfl, fun i => ?_, fun i => ?_, fun i => ?_, fun i => ?_⟩, rfl,
    fun i => ?_⟩
  all_goals
    rcases htask i with h | h
    · simp [h]
    · rw [h]
      unfold tickTask
      split <;> grind

theorem HandlerFrame.modifyTask {g g' : Globals} (h : HandlerFrame g g') (c : Nat)
    (f : Task → Task) (hctx : ∀ t, (f t).context = t.context)
    (hf : ∀ t, (f t).priority = t.priority ∧ (f t).created = t.created ∧
      (f t).wakeTick = t.wakeTick ∧ ((f t).state = .blocked → t.state = .blocked)) :
    HandlerFrame g (g'.modifyTask c f) :=
  ⟨h.toFrame.modifyTask c f hf, h.schedCtx, fun i =>
    (modifyTask_field Task.context (hctx _) i).trans (h.context i)⟩

theorem preemptHandler_frame (g : Globals) : HandlerFrame g g.preemptHandler.1 := by
  obtain ⟨n, -, h⟩ | ⟨cur, -, -, h⟩ | ⟨cur, next, -, -, -, h⟩ := g.preemptHandler_cases
  · rw [h]
    exact handlerFrame_ticked g n
  · rw [h]
    exact ((handlerFrame_ticked g 0).modifyTask cur (fun t => { t with state := .ready })
      (fun _ => rfl) (by simp)).modifyTask cur (fun t => { t with state := .running })
        (fun _ => rfl) (by simp)
  · rw [h]
    have hready := (handlerFrame_ticked g 0).modifyTask cur
      (fun t => { t with state := .ready }) (fun _ => rfl) (by simp)
    have hmoved : HandlerFrame g
        { (g.ticked 0).setState cur .ready with currentIdx := some next } :=
      { hready with }
    have hswitched := (hmoved.modifyTask next (fun t => { t with state := .running })
      (fun _ => rfl) (by simp)).modifyTask cur
        (fun t => { t with pendingPreemptions := t.pendingPreemptions + 1 }) (fun _ => rfl)
        (by simp)
    exact { hswitched with }

theorem preemptHandler_current (g : Globals) :
    match g.preemptHandler.2 with
    | none => g.preemptHandler.1.currentIdx = g.currentIdx
    | some (cur, next) => g.currentIdx = some cur ∧ next < g.numTasks ∧
        g.preemptHandler.1.currentIdx = some next ∧
        (g.preemptHandler.1.tasks next).state = .running := by
  obtain ⟨n, -, h⟩ | ⟨cur, -, -, h⟩ | ⟨cur, next, hidx, -, hpick, h⟩ := g.preemptHandler_cases
  · rw [h]
    rfl
  · rw [h]
    rfl
  · rw [h]
    have hnext := (pickNextReady_ready hpick).1
    refine ⟨hidx, hnext, rfl, ?_⟩
    by_cases hc : next = cur
    · subst hc
      simp [switched]
    · simp [switched, hc]

end Globals

/-- The task whose state a statement stores, and the state. -/
def Stmt.sets (g : Globals) : Stmt → Option (Nat × TaskState)
  | terminate c => some (c, .terminated)
  | runRunning n => some (n, .running)
  | yieldReady c => some (c, .ready)
  | sleepBlock c | lockBlock _ c | waitBlock _ c => some (c, .blocked)
  | wakeReady o i => ((g.waiters o).slots i).map (·, .ready)
  | _ => none

/-- What a statement can do to the variables. -/
inductive Stmt.Stores (g : Globals) : Stmt → Globals → Prop where
  | state {s : Stmt} {c : Nat} {st : TaskState} (sets : s.sets g = some (c, st)) :
      Stores g s (g.setState c st)
  | spawn (p : Int) : Stores g (.spawn p) (g.taskSpawn p)
  | overflow (c : Nat) : Stores g .overflow (g.modifyTask c fun t => { t with canaryOk := false })
  | runCurrent (n : Nat) : Stores g (.runCurrent n) { g with currentIdx := some n }
  | runCount (n : Nat) (b : Bool) :
      Stores g (.runCount n b) { g with switchCount := g.switchCount + 1 }
  | runIdle : Stores g .runIdle { g with currentIdx := none }
  | sleepWake (c : Nat) (ms : Int) (n : Nat) :
      Stores g (.sleepWake c ms) (g.modifyTask c fun t => { t with wakeTick := n })
  | lockBoost {m : MutexId} {o : Nat} (c : Nat) (owner : (g.mutexes m).owner = some o) :
      Stores g (.lockBoost m c)
        (g.modifyTask o fun t => { t with priority := (g.tasks c).priority })
  | lockAddWaiter (m : MutexId) (c : Nat) :
      Stores g (.lockAddWaiter m c) (g.modifyWaiters (.mutex m) (·.add c))
  | lockTake (m : MutexId) (c : Nat) :
      Stores g (.lockTake m c) (g.modifyMutex m fun mu => { mu with locked := true })
  | lockOwn (m : MutexId) (c : Nat) :
      Stores g (.lockOwn m c) (g.modifyMutex m fun mu => { mu with owner := some c })
  | lockSave (m : MutexId) (c : Nat) : Stores g (.lockSave m c)
      (g.modifyMutex m fun mu => { mu with ownerSavedPriority := (g.tasks c).priority })
  | unlockRestore (m : MutexId) (c : Nat) : Stores g (.unlockRestore m c)
      (g.modifyTask c fun t => { t with priority := (g.mutexes m).ownerSavedPriority })
  | unlockFree (m : MutexId) :
      Stores g (.unlockFree m) (g.modifyMutex m fun mu => { mu with locked := false })
  | unlockDisown (m : MutexId) :
      Stores g (.unlockDisown m) (g.modifyMutex m fun mu => { mu with owner := none })
  | waitAddWaiter (i : SemId) (c : Nat) :
      Stores g (.waitAddWaiter i c) (g.modifyWaiters (.sem i) (·.add c))
  | waitTake (i : SemId) :
      Stores g (.waitTake i) (g.modifySem i fun se => { se with count := se.count - 1 })
  | postCount (i : SemId) :
      Stores g (.postCount i) (g.modifySem i fun se => { se with count := se.count + 1 })
  | wakeClear (o : Obj) : Stores g (.wakeClear o) (g.modifyWaiters o fun w => { w with num := 0 })
  | sendStore (q : Nat) (x : Item) : Stores g (.sendStore q x) (g.modifyQueue q fun qu =>
      { qu with buffer := Function.update qu.buffer qu.tail x, sent := qu.sent ++ [x] })
  | sendTail (q : Nat) : Stores g (.sendTail q)
      (g.modifyQueue q fun qu => { qu with tail := (qu.tail + 1) % qu.capacity })
  | receiveHead (q : Nat) (x : Item) : Stores g (.receiveHead q x)
      (g.modifyQueue q fun qu => { qu with head := (qu.head + 1) % qu.capacity })
  | receiveReturn (q : Nat) (x : Item) : Stores g (.receiveReturn q x)
      (g.modifyQueue q fun qu => { qu with received := qu.received ++ [x] })
  | nothing (s : Stmt) : Stores g s g

namespace Stmt

variable {g g' : Globals} {s : Stmt} {succ : List Stmt}

theorem exec_stores (h : s.exec g = some (g', succ)) : s.Stores g g' := by
  cases s <;>
    simp only [exec, Option.map_eq_some_iff, Option.some.injEq, Prod.mk.injEq, reduceCtorEq,
      Option.ite_none_right_eq_some] at h
  case terminate | runRunning | yieldReady | sleepBlock | lockBlock | waitBlock =>
    obtain ⟨rfl, -⟩ := h
    exact .state rfl
  case wakeReady o i =>
    obtain ⟨c, hc, rfl, -⟩ := h
    exact .state (Option.map_eq_some_iff.mpr ⟨c, hc, rfl⟩)
  case lockBoost m c =>
    obtain ⟨o, ho, rfl, -⟩ := h
    exact .lockBoost c ho
  case overflow | yieldCurrent | sleepCurrent | lockCurrent | unlockCurrent | waitCurrent =>
    obtain ⟨c, -, rfl, -⟩ := h
    constructor
  case runCanary =>
    obtain ⟨-, rfl, -⟩ := h
    constructor
  all_goals
    obtain ⟨rfl, -⟩ := h
    constructor

theorem exec_schedCtx (h : s.exec g = some (g', succ)) : g'.schedCtx = g.schedCtx := by
  cases exec_stores h with
  | spawn | wakeClear => simp
  | _ => rfl

theorem exec_parameters (h : s.exec g = some (g', succ)) :
    g'.tickMs = g.tickMs ∧ g'.ticksPerSlice = g.ticksPerSlice := by
  cases exec_stores h with
  | spawn p =>
    unfold Globals.taskSpawn
    split <;> exact ⟨rfl, rfl⟩
  | wakeClear o => cases o <;> exact ⟨rfl, rfl⟩
  | _ => exact ⟨rfl, rfl⟩

theorem exec_currentIdx (h : s.exec g = some (g', succ)) :
    g'.currentIdx = g.currentIdx ∨ (∃ n, s = .runCurrent n) ∨ s = .runIdle := by
  cases exec_stores h with
  | runCurrent n => exact Or.inr (Or.inl ⟨n, rfl⟩)
  | runIdle => exact Or.inr (Or.inr rfl)
  | spawn | wakeClear => exact Or.inl (by simp)
  | _ => exact Or.inl rfl

/-- A state that changes is stored by the statement, or is that of a new task. -/
theorem exec_sets (h : s.exec g = some (g', succ)) (j : Nat) :
    (g'.tasks j).state = (g.tasks j).state ∨ s.sets g = some (j, (g'.tasks j).state) ∨
      (∃ p, s = .spawn p) ∧ j = g.numTasks ∧ (g'.tasks j).state = .ready := by
  cases exec_stores h with
  | @state _ c st sets =>
    by_cases hc : j = c
    · subst hc
      exact Or.inr (Or.inl (by simpa using sets))
    · exact Or.inl (by simp [hc])
  | spawn p =>
    unfold Globals.taskSpawn
    split
    case isTrue => exact Or.inl rfl
    case isFalse =>
      by_cases hn : j = g.numTasks
      · subst hn
        exact Or.inr (Or.inr ⟨⟨p, rfl⟩, rfl, by simp [Task.create]⟩)
      · exact Or.inl (by simp [hn])
  | overflow | sleepWake | lockBoost | unlockRestore =>
    exact Or.inl (Globals.modifyTask_field Task.state rfl j)
  | wakeClear => exact Or.inl (by simp)
  | _ => exact Or.inl rfl

theorem eq_of_sets_running {c : Nat} (h : s.sets g = some (c, .running)) : s = .runRunning c := by
  cases s <;> simp_all [sets]

theorem eq_of_sets_terminated {c : Nat} (h : s.sets g = some (c, .terminated)) :
    s = .terminate c := by
  cases s <;> simp_all [sets]

end Stmt

/-- A statement at which an execution goes on after a call has returned. -/
def Stmt.returnPoint : Stmt → Bool
  | body | terminate _ | exit | runCanary _ | runTest | lockTest _ _ | waitTest _ _
  | lockCurrent _ | unlockCurrent _ | postCount _ | sendStore _ _ | receiveLoad _
  | receiveReturn _ _ => true
  | _ => false

theorem Stmt.exec_returnPoint {g g' : Globals} {s : Stmt} {succ : List Stmt}
    (h : s.exec g = some (g', succ)) : ∀ s' ∈ succ.tail, s'.returnPoint = true := by
  cases s <;>
    simp only [exec, Option.map_eq_some_iff, Option.some.injEq, Prod.mk.injEq, reduceCtorEq,
      Option.ite_none_right_eq_some] at h
  all_goals first
    | obtain ⟨-, rfl⟩ := h
    | obtain ⟨c, -, -, rfl⟩ := h
  all_goals try split
  all_goals repeat' first
    | exact List.forall_mem_nil _
    | refine List.forall_mem_cons.mpr ⟨rfl, ?_⟩

theorem Stmt.control_returnPoint {b : Bool} {s : Stmt} {succ : List Stmt}
    (h : s.control b = some succ) : ∀ s' ∈ succ.tail, s'.returnPoint = true := by
  unfold control at h
  split at h <;> cases h <;> simp [returnPoint]

theorem Op.code_returnPoint (op : Op) : ∀ s ∈ op.code.tail, s.returnPoint = true := by
  cases op
  all_goals repeat' first
    | exact List.forall_mem_nil _
    | refine List.forall_mem_cons.mpr ⟨rfl, ?_⟩

theorem returnPoint_append {succ rest : List Stmt}
    (hsucc : ∀ s ∈ succ.tail, s.returnPoint = true) (hrest : ∀ s ∈ rest, s.returnPoint = true) :
    ∀ s ∈ (succ ++ rest).tail, s.returnPoint = true := by
  intro s hs
  cases succ with
  | nil => exact hrest s (List.mem_of_mem_tail hs)
  | cons x more =>
    rcases List.mem_append.mp hs with hs | hs
    · exact hsucc s hs
    · exact hrest s hs

theorem head_append {P : Stmt → Prop} {succ rest : List Stmt} (hsucc : ∀ s ∈ succ.head?, P s)
    (hrest : ∀ s ∈ rest, P s) : ∀ s ∈ (succ ++ rest).head?, P s := by
  cases succ with
  | nil => exact fun s hs => hrest s (List.mem_of_head? hs)
  | cons => exact hsucc

theorem head_append_of_some {succ rest : List Stmt} {s : Stmt} (h : s ∈ succ.head?) :
    s ∈ (succ ++ rest).head? := by
  cases succ with
  | nil => cases h
  | cons => exact h

namespace Machine

variable {k k' : Machine} {a : Action}

/-- The effect of a step on the thread that had the processor, `th` being that thread
afterwards. -/
inductive Moves (k k' : Machine) (th : Thread) : Action → Prop where
  | resume (frame : k.vars.Frame k'.vars) (cpu : k'.cpu = k.cpu)
      (code : th.code = k.current.code) (held : th.held = k.current.held)
      (state : ∀ i, (k'.vars.tasks i).state = (k.vars.tasks i).state)
      (handlers : k.current.handlers ≠ []) : Moves k k' th .exec
  | tick (frame : k.vars.Frame k'.vars) (ticked : k' = k.tick)
      (code : th.code = k.current.code) (held : th.held = k.current.held) : Moves k k' th .tick
  | control {s : Stmt} {rest succ : List Stmt} (frame : k.vars.Frame k'.vars)
      (hc : k.current.code = s :: rest) (hs : s.control k.current.masked = some succ)
      (cpu : k'.cpu = s.goesTo k) (code : th.code = succ ++ rest)
      (held : th.held = k.current.held)
      (state : ∀ i, (k'.vars.tasks i).state = (k.vars.tasks i).state) : Moves k k' th .exec
  | exit {rest : List Stmt} (frame : k.vars.Frame k'.vars)
      (hc : k.current.code = .exit :: rest) (cpu : k'.cpu = k.vars.schedCtx) (code : th.code = [])
      (held : th.held = k.current.held)
      (state : ∀ i, (k'.vars.tasks i).state = (k.vars.tasks i).state) : Moves k k' th .exec
  | plain {s : Stmt} {rest succ : List Stmt} (hh : k.current.handlers = [])
      (hc : k.current.code = s :: rest) (he : s.exec k.vars = some (k'.vars, succ))
      (cpu : k'.cpu = k.cpu) (code : th.code = succ ++ rest)
      (held : th.held = s.heldAfter k.current.held) : Moves k k' th .exec
  | call {op : Op} {rest : List Stmt} (frame : k.vars.Frame k'.vars) (cpu : k'.cpu = k.cpu)
      (hc : k.current.code = .body :: rest) (code : th.code = op.code ++ .body :: rest)
      (held : th.held = k.current.held)
      (state : ∀ i, (k'.vars.tasks i).state = (k.vars.tasks i).state) : Moves k k' th (.call op)

theorem frame_handlerReturn (k : Machine) (cur : Nat) (handlers : List Nat) :
    k.vars.Frame (k.handlerReturn cur handlers).vars :=
  (Globals.Frame.refl k.vars).modifyTask cur
    (fun t => { t with pendingPreemptions := t.pendingPreemptions - 1 }) (by simp)

/-- Besides what its handler does a tick only saves a context. -/
theorem tick_global {α : Type} (field : Globals → α)
    (context : ∀ g i e, field (Globals.modifyTask g i fun t => { t with context := e }) = field g)
    (k : Machine) : field k.tick.vars = field k.vars.preemptHandler.1 := by
  unfold tick
  split
  case h_1 hp => rw [hp]
  case h_2 hp =>
    rw [hp]
    exact context _ _ _

/-- The parameters of `scheduler_enable_preemption` do not change. -/
theorem step_parameters (h : Step k a k') :
    k'.vars.tickMs = k.vars.tickMs ∧ k'.vars.ticksPerSlice = k.vars.ticksPerSlice := by
  cases h with
  | plain hh hc he => exact Stmt.exec_parameters he
  | tick hm =>
    rw [tick_global Globals.tickMs fun _ _ _ => rfl,
      tick_global Globals.ticksPerSlice fun _ _ _ => rfl]
    obtain ⟨n, -, h⟩ | ⟨cur, -, -, h⟩ | ⟨cur, next, -, -, -, h⟩ := k.vars.preemptHandler_cases
    · rw [h]
      exact ⟨rfl, rfl⟩
    · rw [h]
      exact ⟨rfl, rfl⟩
    · rw [h]
      exact ⟨rfl, rfl⟩
  | _ => exact ⟨rfl, rfl⟩

theorem frame_tick (k : Machine) : k.vars.Frame k.tick.vars := by
  have frame := k.vars.preemptHandler_frame
  unfold tick
  split
  case h_1 g hp =>
    rw [hp] at frame
    exact frame.toFrame
  case h_2 g cur next hp =>
    rw [hp] at frame
    exact frame.toFrame.context cur k.cpu

/-- Nothing happens to the running thread. -/
theorem threads_eq_update (k : Machine) :
    k.threads = Function.update k.threads k.cpu k.current := by
  simp [current]

theorem step_moves (h : system.step k a = some k') :
    ∃ th, k'.threads = Function.update k.threads k.cpu th ∧ Moves k k' th a := by
  have still : ∀ i, (k.vars.tasks i).state = (k.vars.tasks i).state := fun _ => rfl
  cases step_cases h with
  | handlerReturn hh =>
    refine ⟨_, rfl, .resume (frame_handlerReturn k _ _) rfl rfl rfl (fun i => ?_) (by simp [hh])⟩
    rw [handlerReturn_vars, Globals.modifyTask_field Task.state rfl]
  | entryReturn hh hc => exact ⟨_, rfl, .control (.refl _) hc rfl rfl rfl rfl still⟩
  | restoreMask hh hc => exact ⟨_, rfl, .control (.refl _) hc rfl rfl rfl rfl still⟩
  | runBlock hh hc => exact ⟨_, rfl, .control (.refl _) hc rfl rfl rfl rfl still⟩
  | yieldBlock hh hc => exact ⟨_, rfl, .control (.refl _) hc rfl rfl rfl rfl still⟩
  | runSwap hh hc =>
    exact ⟨_, rfl, .control { Globals.Frame.refl _ with } hc rfl rfl rfl rfl still⟩
  | yieldSwap hh hc =>
    refine ⟨_, rfl, .control ((Globals.Frame.refl _).context _ _) hc rfl rfl rfl rfl fun i => ?_⟩
    rw [swapToSched_vars, Globals.modifyTask_field Task.state rfl]
    rfl
  | exit hh hc => exact ⟨_, rfl, .exit (.refl _) hc rfl rfl rfl still⟩
  | plain hh hc he => exact ⟨_, rfl, .plain hh hc he rfl rfl rfl⟩
  | call hh hc => exact ⟨_, rfl, .call (.refl _) rfl hc rfl rfl still⟩
  | tick hm =>
    have same : ∃ th : Thread, k.tick.threads = Function.update k.threads k.cpu th ∧
        th.code = k.current.code ∧ th.held = k.current.held := by
      unfold tick
      split
      · exact ⟨k.current, k.threads_eq_update, rfl, rfl⟩
      · exact ⟨_, rfl, rfl, rfl⟩
    obtain ⟨th, hth, code, held⟩ := same
    exact ⟨th, hth, .tick k.frame_tick rfl code held⟩

theorem next_eq {s : Stmt} {rest : List Stmt} (hc : k.current.code = s :: rest) :
    k.next = some s := by
  rw [next, hc]
  rfl

theorem eq_of_next {s s' : Stmt} {rest : List Stmt} (hc : k.current.code = s :: rest)
    (hs : s' ∈ k.next) : s' = s :=
  Option.some.inj (hs.symm.trans (next_eq hc))

theorem thread_self {th : Thread} (hk : k'.threads = Function.update k.threads k.cpu th) :
    k'.threads k.cpu = th := by
  simp [hk]

theorem thread_other {th : Thread} (hk : k'.threads = Function.update k.threads k.cpu th)
    {e : Exec} (he : e ≠ k.cpu) : k'.threads e = k.threads e := by
  simp [hk, he]

theorem thread_of_cpu {th : Thread} (hk : k'.threads = Function.update k.threads k.cpu th)
    {e : Exec} (hcpu : k.cpu = e) : k'.threads e = th :=
  hcpu ▸ thread_self hk

theorem code_of_cpu {e : Exec} {code : List Stmt} (hcpu : k.cpu = e)
    (hc : k.current.code = code) : (k.threads e).code = code := by
  subst hcpu
  exact hc

theorem sched_ne_cpu {i : Nat} (hcpu : k.cpu = .task i) : Exec.sched ≠ k.cpu := by
  rw [hcpu]
  exact Exec.noConfusion

theorem forall_threads {th : Thread} (hk : k'.threads = Function.update k.threads k.cpu th)
    {P : Thread → Prop} (others : ∀ e, e ≠ k.cpu → P (k.threads e)) (self : P th) (e : Exec) :
    P (k'.threads e) := by
  by_cases he : e = k.cpu
  · rw [he, thread_self hk]
    exact self
  · rw [thread_other hk he]
    exact others e he

theorem next_of_stays {th : Thread} (hk : k'.threads = Function.update k.threads k.cpu th)
    (cpu : k'.cpu = k.cpu) : k'.next = th.code.head? := by
  rw [next, current, cpu, thread_self hk]

/-- A step after which the thread that had the processor goes on with `R`, or rests with `P` and
gives the processor up to a thread for which resting is enough to go on. -/
theorem hand_over {th : Thread} (hk : k'.threads = Function.update k.threads k.cpu th)
    {P R : List Stmt → Prop} (others : ∀ e, e ≠ k.cpu → P (k.threads e).code)
    (same : k'.cpu = k.cpu → R th.code)
    (switch : k'.cpu ≠ k.cpu → P th.code ∧ ∀ code, P code → R code) :
    (∀ e, e ≠ k'.cpu → P (k'.threads e).code) ∧ R k'.current.code := by
  by_cases hcpu : k'.cpu = k.cpu
  · refine ⟨fun e he => ?_, ?_⟩
    · have hne : e ≠ k.cpu := hcpu ▸ he
      rw [thread_other hk hne]
      exact others e hne
    · rw [current, hcpu, thread_self hk]
      exact same hcpu
  · obtain ⟨hrest, resume⟩ := switch hcpu
    have hall : ∀ e, P (k'.threads e).code :=
      forall_threads hk (P := fun t => P t.code) others hrest
    exact ⟨fun e _ => hall e, resume _ (hall _)⟩

/-- Below the statement that runs next there are only return points. -/
def Stacked (k : Machine) : Prop :=
  ∀ e, ∀ s ∈ (k.threads e).code.tail, s.returnPoint = true

theorem stacked_start (c : Config) : Stacked c.start := by
  intro e s hs
  cases e with
  | sched => cases hs
  | task i =>
    simp only [Config.start, Thread.trampoline, List.tail_cons, List.mem_cons, List.not_mem_nil,
      or_false] at hs
    rcases hs with rfl | rfl <;> rfl

theorem Stacked.rest (h : Stacked k) {s : Stmt} {rest : List Stmt}
    (hc : k.current.code = s :: rest) : ∀ s' ∈ rest, s'.returnPoint = true := by
  have htail : ∀ s' ∈ k.current.code.tail, s'.returnPoint = true := h k.cpu
  rwa [hc] at htail

theorem stacked_step (h : Stacked k) (hstep : system.step k a = some k') : Stacked k' := by
  obtain ⟨th, hth, moves⟩ := step_moves hstep
  suffices hcode : ∀ s ∈ th.code.tail, s.returnPoint = true from
    forall_threads hth (P := fun t => ∀ s ∈ t.code.tail, s.returnPoint = true) (fun e _ => h e)
      hcode
  cases moves with
  | resume _ _ code | tick _ _ code =>
    rw [code]
    exact h k.cpu
  | control _ hc hs _ code =>
    rw [code]
    exact returnPoint_append (Stmt.control_returnPoint hs) (h.rest hc)
  | exit _ _ _ code =>
    rw [code]
    exact nofun
  | plain _ hc he _ code =>
    rw [code]
    exact returnPoint_append (Stmt.exec_returnPoint he) (h.rest hc)
  | @call op rest _ _ hc code =>
    rw [code]
    refine returnPoint_append op.code_returnPoint fun s hs => ?_
    rcases List.mem_cons.mp hs with rfl | hs
    · rfl
    · exact h.rest hc s hs

theorem stacked_of_reach {c : Config} {ok : Machine → Action → Prop}
    (h : system.Reach ok c.start k) : Stacked k :=
  h.invariant (stacked_start c) fun _ _ _ stacked _ hstep => stacked_step stacked hstep

end Machine

end RtosXrce.Kernel
