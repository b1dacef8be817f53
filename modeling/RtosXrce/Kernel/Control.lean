import RtosXrce.Kernel.Steps

/-!
# Who has the processor

The control invariant of the runs in which the timer only interrupts tasks: a running task is the
one `g_current_idx` names, a saved context belongs to the task it is stored in, and the locals
called `cur` name the task that holds them.
-/

namespace RtosXrce.Kernel

open Library

/-- A statement of `scheduler_run`. -/
def Stmt.isRun : Stmt → Bool
  | runTest | runPick | runCurrent _ | runRunning _ | runBlock _ | runCount _ _ | runSwap _ _
  | runCanary _ | runIdle => true
  | _ => false

/-- The task a statement has a pointer to in a local: `cur`, or `task` in the trampoline. -/
def Stmt.cur : Stmt → Option Nat
  | terminate c | yieldState c | yieldReady c | yieldBlock c | yieldSwap c _ | sleepWake c _
  | sleepBlock c | lockTest _ c | lockCompare _ c | lockBoost _ c | lockAddWaiter _ c
  | lockBlock _ c | lockTake _ c | lockOwn _ c | lockSave _ c | unlockRestore _ c | waitTest _ c
  | waitAddWaiter _ c | waitBlock _ c => some c
  | _ => none

theorem Op.code_frame (op : Op) {i : Nat} :
    ∀ s ∈ op.code, s.isRun = false ∧ ∀ c ∈ s.cur, c = i := by
  cases op
  all_goals repeat' first
    | exact List.forall_mem_nil _
    | refine List.forall_mem_cons.mpr ⟨⟨rfl, fun _ h => absurd h (Option.not_mem_none _)⟩, ?_⟩

/-- What a statement of a task leaves alone. -/
theorem Stmt.exec_frame {g g' : Globals} {s : Stmt} {succ : List Stmt} (run : s.isRun = false)
    (h : s.exec g = some (g', succ)) :
    g'.currentIdx = g.currentIdx ∧ g'.schedCtx = g.schedCtx ∧
      ∀ s' ∈ succ, s'.isRun = false ∧ ∀ c ∈ s'.cur, c ∈ s.cur ∨ c ∈ g.currentIdx := by
  refine ⟨?_, exec_schedCtx h, ?_⟩
  · obtain same | ⟨n, rfl⟩ | rfl := exec_currentIdx h
    · exact same
    · cases run
    · cases run
  · cases s <;> cases run <;>
      simp only [exec, Option.map_eq_some_iff, Option.some.injEq, Prod.mk.injEq, reduceCtorEq] at h
    all_goals first
      | obtain ⟨-, rfl⟩ := h
      | obtain ⟨c, hc, -, rfl⟩ := h
    all_goals try split
    all_goals repeat' first
      | exact List.forall_mem_nil _
      | refine List.forall_mem_cons.mpr ⟨?_, ?_⟩
    all_goals first
      | exact ⟨rfl, fun _ h => Or.inl h⟩
      | exact ⟨rfl, fun _ h => Or.inr (Option.some.inj h ▸ hc)⟩
      | exact ⟨rfl, fun _ h => absurd h (Option.not_mem_none _)⟩

/-- The table only grows, up to its capacity, and a saved context changes hands only in
`swapcontext`. -/
theorem Stmt.exec_table {g g' : Globals} {s : Stmt} {succ : List Stmt}
    (h : s.exec g = some (g', succ)) (few : g.numTasks ≤ schedMaxTasks)
    (contexts : ∀ i < g.numTasks, (g.tasks i).context = .task i) :
    g.numTasks ≤ g'.numTasks ∧ g'.numTasks ≤ schedMaxTasks ∧
      ∀ i < g'.numTasks, (g'.tasks i).context = .task i := by
  cases exec_stores h with
  | spawn p =>
    unfold Globals.taskSpawn
    split
    · exact ⟨Nat.le_refl _, few, contexts⟩
    · refine ⟨Nat.le_succ _, by dsimp only; omega, fun i hi => ?_⟩
      by_cases hn : i = g.numTasks
      · simp [hn, Task.create]
      · simpa [hn] using contexts i (by dsimp only at hi; omega)
  | state | overflow | sleepWake | lockBoost | unlockRestore =>
    exact ⟨Nat.le_refl _, few, fun i hi =>
      (Globals.modifyTask_field Task.context rfl i).trans (contexts i hi)⟩
  | wakeClear => simpa using ⟨few, contexts⟩
  | _ => exact ⟨Nat.le_refl _, few, contexts⟩

namespace Machine

/-- Where `scheduler_run` can be, and what it knows there. -/
def SchedPoint (g : Globals) : List Stmt → Prop
  | [.runTest] | [.runPick] | [.runIdle] | [] => True
  | [.runCurrent n] => n < g.numTasks
  | [.runRunning n] => n < g.numTasks ∧ g.currentIdx = some n
  | [.runBlock n] | [.runCount n _] | [.runSwap n _] =>
    n < g.numTasks ∧ g.currentIdx = some n ∧ (g.tasks n).state = .running
  | [.restoreMask _, .runCanary _, .runTest] | [.runCanary _, .runTest] => True
  | _ => False

structure Wf (k : Machine) : Prop where
  few : k.vars.numTasks ≤ schedMaxTasks
  contexts : ∀ i < k.vars.numTasks, (k.vars.tasks i).context = .task i
  running : ∀ i, k.cpu = .task i → i < k.vars.numTasks ∧ k.vars.currentIdx = some i ∧
    k.vars.schedCtx = .sched ∧
    ∃ b n, (k.threads .sched).code = [.restoreMask b, .runCanary n, .runTest]
  locals : ∀ i, ∀ s ∈ (k.threads (.task i)).code, s.isRun = false ∧ ∀ c ∈ s.cur, c = i
  sched : SchedPoint k.vars (k.threads .sched).code
  quiet : (k.threads .sched).handlers = []

/-- The timer interrupts tasks only. -/
def TicksTasks (k : Machine) (a : Action) : Prop :=
  a = .tick → ∃ i, k.cpu = .task i

instance (k : Machine) (a : Action) : Decidable (TicksTasks k a) :=
  match a with
  | .exec => isTrue nofun
  | .call _ => isTrue nofun
  | .tick =>
    match h : k.cpu with
    | .task i => isTrue fun _ => ⟨i, h⟩
    | .sched => isFalse fun ticks => (ticks rfl).elim fun _ hi => nomatch h.symm.trans hi

/-- Control changes hands only where a task gives it up. -/
def Cooperative (a : Action) : Prop := a ≠ .tick

instance (a : Action) : Decidable (Cooperative a) := inferInstanceAs (Decidable (a ≠ .tick))

theorem Cooperative.ticksTasks {a : Action} (h : Cooperative a) (k : Machine) : TicksTasks k a :=
  fun ha => absurd ha h

theorem wf_start (c : Config) : Wf c.start where
  few := c.few
  contexts _ _ := rfl
  running _ h := by cases h
  locals i s hs := by
    simp only [Config.start, Thread.trampoline, List.mem_cons, List.not_mem_nil, or_false] at hs
    rcases hs with rfl | rfl | rfl <;> simp [Stmt.isRun, Stmt.cur]
  sched := trivial
  quiet := rfl

variable {k k' : Machine} {a : Action}

/-- A step of a task that keeps the processor and only moves on in its own code. -/
theorem Wf.advance_task (wf : Wf k) {i : Nat} (hcpu : k.cpu = .task i) {th : Thread}
    {g : Globals}
    (table : k.vars.numTasks ≤ g.numTasks ∧ g.numTasks ≤ schedMaxTasks ∧
      ∀ j < g.numTasks, (g.tasks j).context = .task j)
    (hcur : g.currentIdx = k.vars.currentIdx) (hsched : g.schedCtx = k.vars.schedCtx)
    (hcode : ∀ s ∈ th.code, s.isRun = false ∧ ∀ c ∈ s.cur, c = i) :
    Wf { k.setThread k.cpu th with vars := g } := by
  obtain ⟨hi, hidx, hctx, hwait⟩ := wf.running i hcpu
  have hne := sched_ne_cpu hcpu
  refine ⟨table.2.1, table.2.2, fun j hj => ?_, fun j s hs => ?_, ?_, ?_⟩
  · have hij : k.cpu = .task j := hj
    obtain ⟨hlt, hidx, hctx, hwait⟩ := wf.running j hij
    refine ⟨Nat.lt_of_lt_of_le hlt table.1, hcur.trans hidx, hsched.trans hctx, ?_⟩
    simpa [hne] using hwait
  · by_cases hj : j = i
    · subst hj
      exact hcode s (by simpa [hcpu] using hs)
    · exact wf.locals j s (by simpa [hcpu, hj] using hs)
  · obtain ⟨b, n, hw⟩ := hwait
    have hcode : ((k.setThread k.cpu th).threads .sched).code =
        [.restoreMask b, .runCanary n, .runTest] := by simpa [hne] using hw
    show SchedPoint g ((k.setThread k.cpu th).threads .sched).code
    rw [hcode]
    trivial
  · simpa [hne] using wf.quiet

/-- `scheduler_run` runs its own statements, or comes back from `swapcontext`. -/
theorem SchedPoint.cases {g : Globals} {s : Stmt} {rest : List Stmt}
    (h : SchedPoint g (s :: rest)) :
    (s.isRun = true ∧ (rest = [] ∨ ∃ n, s = .runCanary n ∧ rest = [.runTest])) ∨
      ∃ b n, s = .restoreMask b ∧ rest = [.runCanary n, .runTest] := by
  unfold SchedPoint at h
  split at h <;> simp_all [Stmt.isRun]

/-- A step of `scheduler_run` that keeps the processor. -/
theorem Wf.advance_sched (wf : Wf k) (hcpu : k.cpu = .sched) {th : Thread} {g : Globals}
    (table : k.vars.numTasks ≤ g.numTasks ∧ g.numTasks ≤ schedMaxTasks ∧
      ∀ j < g.numTasks, (g.tasks j).context = .task j)
    (hcode : SchedPoint g th.code) (hquiet : th.handlers = []) :
    Wf { k.setThread k.cpu th with vars := g } := by
  refine ⟨table.2.1, table.2.2, fun j hj => ?_, fun j s hs => ?_, ?_, ?_⟩
  · have : k.cpu = .task j := hj
    rw [hcpu] at this
    cases this
  · exact wf.locals j s (by simpa [hcpu] using hs)
  · simpa [hcpu] using hcode
  · simpa [hcpu] using hquiet

theorem Wf.point (wf : Wf k) (hcpu : k.cpu = .sched) {s : Stmt} {rest : List Stmt}
    (hc : k.current.code = s :: rest) : SchedPoint k.vars (s :: rest) := by
  have hcode : (k.threads .sched).code = s :: rest := by rw [← hcpu]; exact hc
  rw [← hcode]
  exact wf.sched

/-- A statement of `scheduler_run` is alone, unless control came back to it. -/
theorem SchedPoint.alone {g : Globals} {s : Stmt} {rest : List Stmt}
    (h : SchedPoint g (s :: rest)) (hs : s.isRun = true) (hcanary : ∀ n, s ≠ .runCanary n) :
    rest = [] := by
  obtain ⟨-, rfl | ⟨n, rfl, -⟩⟩ | ⟨b, n, rfl, -⟩ := h.cases
  · rfl
  · exact absurd rfl (hcanary n)
  · cases hs

/-- The plain statements of `scheduler_run`: the code before, and the globals and the code after. -/
inductive SchedExec (g : Globals) : List Stmt → Globals → List Stmt → Prop where
  | active (h : g.anyTaskActive) : SchedExec g [.runTest] g [.runPick]
  | inactive (h : ¬ g.anyTaskActive) : SchedExec g [.runTest] g [.runIdle]
  | noneReady (h : g.pickNextReady = none) : SchedExec g [.runPick] g [.runTest]
  | ready {next : Nat} (h : g.pickNextReady = some next) :
      SchedExec g [.runPick] g [.runCurrent next]
  | current {next : Nat} :
      SchedExec g [.runCurrent next] { g with currentIdx := some next } [.runRunning next]
  | running {next : Nat} :
      SchedExec g [.runRunning next] (g.setState next .running) [.runBlock next]
  | count {next : Nat} {b : Bool} :
      SchedExec g [.runCount next b] { g with switchCount := g.switchCount + 1 } [.runSwap next b]
  | canary {next : Nat} : SchedExec g [.runCanary next, .runTest] g [.runTest]
  | idle : SchedExec g [.runIdle] { g with currentIdx := none } []

theorem Wf.schedExec (wf : Wf k) (hcpu : k.cpu = .sched) {s : Stmt} {rest succ : List Stmt}
    {g : Globals} (hc : k.current.code = s :: rest) (he : s.exec k.vars = some (g, succ)) :
    SchedExec k.vars (s :: rest) g (succ ++ rest) := by
  have hpoint := wf.point hcpu hc
  obtain ⟨hrun, -⟩ | ⟨b, n, rfl, -⟩ := hpoint.cases
  case inr => cases he
  case inl =>
    cases s with
    | runTest =>
      cases he
      obtain rfl := hpoint.alone rfl (by simp)
      split
      case isTrue h => exact .active h
      case isFalse h => exact .inactive h
    | runPick =>
      cases he
      obtain rfl := hpoint.alone rfl (by simp)
      split
      case h_1 h => exact .noneReady h
      case h_2 h => exact .ready h
    | runCurrent next =>
      cases he
      obtain rfl := hpoint.alone rfl (by simp)
      exact .current
    | runRunning next =>
      cases he
      obtain rfl := hpoint.alone rfl (by simp)
      exact .running
    | runCount next b =>
      cases he
      obtain rfl := hpoint.alone rfl (by simp)
      exact .count
    | runCanary next =>
      simp only [Stmt.exec, Option.ite_none_right_eq_some, Option.some.injEq, Prod.mk.injEq] at he
      obtain ⟨-, rfl, rfl⟩ := he
      obtain rfl : rest = [.runTest] := by
        obtain ⟨-, rfl | ⟨n, -, rfl⟩⟩ | ⟨b, n, hs, -⟩ := hpoint.cases
        · exact False.elim hpoint
        · rfl
        · cases hs
      exact .canary
    | runIdle =>
      cases he
      obtain rfl := hpoint.alone rfl (by simp)
      exact .idle
    | runBlock | runSwap => cases he
    | _ => cases hrun

/-- The steps that are left while `scheduler_run` has the processor. -/
inductive SchedStep (k : Machine) : Action → Machine → Prop where
  | restoreMask {b : Bool} {n : Nat}
      (hc : k.current.code = [.restoreMask b, .runCanary n, .runTest]) :
      SchedStep k .exec
        (k.setThread k.cpu { k.current with code := [.runCanary n, .runTest], masked := b })
  | runBlock {next : Nat} (hc : k.current.code = [.runBlock next]) :
      SchedStep k .exec (k.setThread k.cpu
        { k.current with code := [.runCount next k.current.masked], masked := true })
  | runSwap {next : Nat} {b : Bool} (hc : k.current.code = [.runSwap next b]) :
      SchedStep k .exec ((k.setThread k.cpu
        { k.current with code := [.restoreMask b, .runCanary next, .runTest] }).swapToTask next)
  | plain {s : Stmt} {rest succ : List Stmt} {g : Globals} (hc : k.current.code = s :: rest)
      (he : s.exec k.vars = some (g, succ)) : SchedStep k .exec (k.advance s g (succ ++ rest))
  | tick (hm : k.current.masked = false) : SchedStep k .tick k.tick

theorem Wf.current_quiet (wf : Wf k) (hcpu : k.cpu = .sched) : k.current.handlers = [] := by
  unfold current
  rw [hcpu]
  exact wf.quiet

/-- A statement of `scheduler_run` is run by `scheduler_run`. -/
theorem Wf.sched_of_isRun (wf : Wf k) {s : Stmt} {rest : List Stmt}
    (hc : k.current.code = s :: rest) (hs : s.isRun = true) : k.cpu = .sched := by
  cases hcpu : k.cpu with
  | sched => rfl
  | task i =>
    have hmem : s ∈ (k.threads (.task i)).code := List.mem_of_head? (hcpu ▸ next_eq hc)
    rw [(wf.locals i s hmem).1] at hs
    cases hs

/-- A statement that neither belongs to `scheduler_run` nor ends a `swapcontext` is a task's. -/
theorem Wf.cpu_ne_sched (wf : Wf k) {s : Stmt} {rest : List Stmt}
    (hc : k.current.code = s :: rest) (hs : s.isRun = false) (hmask : ∀ b, s ≠ .restoreMask b) :
    k.cpu ≠ .sched := by
  intro hcpu
  obtain ⟨hrun, -⟩ | ⟨b, n, rfl, -⟩ := (wf.point hcpu hc).cases
  · cases hs.symm.trans hrun
  · exact hmask b rfl

theorem Wf.schedStep (wf : Wf k) (hcpu : k.cpu = .sched) (h : Step k a k') :
    SchedStep k a k' := by
  cases h with
  | handlerReturn hh =>
    rw [wf.current_quiet hcpu] at hh
    cases hh
  | entryReturn hh hc => exact absurd hcpu (wf.cpu_ne_sched hc rfl nofun)
  | yieldBlock hh hc => exact absurd hcpu (wf.cpu_ne_sched hc rfl nofun)
  | yieldSwap hh hc => exact absurd hcpu (wf.cpu_ne_sched hc rfl nofun)
  | exit hh hc => exact absurd hcpu (wf.cpu_ne_sched hc rfl nofun)
  | call hh hc => exact absurd hcpu (wf.cpu_ne_sched hc rfl nofun)
  | restoreMask hh hc =>
    obtain ⟨hrun, -⟩ | ⟨b, n, -, rfl⟩ := (wf.point hcpu hc).cases
    · cases hrun
    · exact .restoreMask hc
  | runBlock hh hc =>
    obtain rfl := (wf.point hcpu hc).alone rfl nofun
    exact .runBlock hc
  | runSwap hh hc =>
    obtain rfl := (wf.point hcpu hc).alone rfl nofun
    exact .runSwap hc
  | plain hh hc he => exact .plain hc he
  | tick hm => exact .tick hm

theorem Wf.sched_plain (wf : Wf k) (hcpu : k.cpu = .sched) {s : Stmt} {rest succ : List Stmt}
    {g : Globals} (hc : k.current.code = s :: rest) (he : s.exec k.vars = some (g, succ)) :
    SchedPoint g (succ ++ rest) := by
  have hpoint := wf.point hcpu hc
  have hexec := wf.schedExec hcpu hc he
  generalize succ ++ rest = code at hexec
  cases hexec with
  | active | inactive | noneReady | canary | idle => trivial
  | ready hpick => exact (Globals.pickNextReady_ready hpick).1
  | current => exact ⟨hpoint, rfl⟩
  | running => exact ⟨hpoint.1, hpoint.2, by simp⟩
  | count => exact hpoint

theorem Wf.table (wf : Wf k) :
    k.vars.numTasks ≤ k.vars.numTasks ∧ k.vars.numTasks ≤ schedMaxTasks ∧
      ∀ j < k.vars.numTasks, (k.vars.tasks j).context = .task j :=
  ⟨Nat.le_refl _, wf.few, wf.contexts⟩

theorem Wf.step_sched (wf : Wf k) (hcpu : k.cpu = .sched) (ha : a ≠ .tick) (h : Step k a k') :
    Wf k' := by
  have quiet := wf.current_quiet hcpu
  cases wf.schedStep hcpu h with
  | restoreMask hc => exact wf.advance_sched hcpu wf.table trivial quiet
  | runBlock hc =>
    have hpoint := wf.point hcpu hc
    exact wf.advance_sched hcpu wf.table hpoint quiet
  | @runSwap next b hc =>
    obtain ⟨hlt, hidx, -⟩ := wf.point hcpu hc
    refine ⟨wf.few, wf.contexts, fun j hj => ?_, fun j s hs => ?_, ?_, ?_⟩
    · have hnext : next = j := by
        have hj : (k.vars.tasks next).context = .task j := hj
        rw [wf.contexts next hlt] at hj
        exact Exec.task.inj hj
      subst hnext
      exact ⟨hlt, hidx, hcpu, b, next, by simp [hcpu]⟩
    · exact wf.locals j s (by simpa [hcpu] using hs)
    · simp [hcpu, SchedPoint]
    · simpa [hcpu] using quiet
  | plain hc he =>
    exact wf.advance_sched hcpu (Stmt.exec_table he wf.few wf.contexts)
      (wf.sched_plain hcpu hc he) quiet
  | tick hm => exact absurd rfl ha

/-- Giving the processor to a task that `g_current_idx` names, from a task. -/
theorem Wf.switch_task (wf : Wf k) {i : Nat} (hcpu : k.cpu = .task i) (th : Thread) {g : Globals}
    (table : k.vars.numTasks ≤ g.numTasks ∧ g.numTasks ≤ schedMaxTasks ∧
      ∀ j < g.numTasks, (g.tasks j).context = .task j)
    (hsched : g.schedCtx = k.vars.schedCtx)
    (hcode : ∀ s ∈ th.code, s.isRun = false ∧ ∀ c ∈ s.cur, c = i)
    {next : Nat} (hlt : next < g.numTasks) (hidx : g.currentIdx = some next) :
    Wf { k.setThread k.cpu th with vars := g, cpu := .task next } := by
  obtain ⟨-, -, hctx, hwait⟩ := wf.running i hcpu
  have hne := sched_ne_cpu hcpu
  have keep : Wf { k.setThread k.cpu th with
      vars := { g with currentIdx := k.vars.currentIdx } } :=
    wf.advance_task hcpu table rfl hsched hcode
  refine ⟨keep.few, keep.contexts, fun j hj => ?_, keep.locals, ?_, keep.quiet⟩
  · cases hj
    exact ⟨hlt, hidx, hsched.trans hctx, by simpa [hne] using hwait⟩
  · obtain ⟨b, n, hw⟩ := hwait
    simp [hne, hw, SchedPoint]

theorem Wf.current_locals (wf : Wf k) {i : Nat} (hcpu : k.cpu = .task i) :
    ∀ s ∈ k.current.code, s.isRun = false ∧ ∀ c ∈ s.cur, c = i := by
  unfold current
  rw [hcpu]
  exact wf.locals i

/-- Giving the processor back to `scheduler_run`, from a task. -/
theorem Wf.release_task (wf : Wf k) {i : Nat} (hcpu : k.cpu = .task i) {th : Thread} {g : Globals}
    (table : k.vars.numTasks ≤ g.numTasks ∧ g.numTasks ≤ schedMaxTasks ∧
      ∀ j < g.numTasks, (g.tasks j).context = .task j)
    (hcode : ∀ s ∈ th.code, s.isRun = false ∧ ∀ c ∈ s.cur, c = i) :
    Wf { k.setThread k.cpu th with vars := g, cpu := k.vars.schedCtx } := by
  obtain ⟨-, -, hctx, b, n, hwait⟩ := wf.running i hcpu
  refine ⟨table.2.1, table.2.2, fun j hj => ?_, fun j s hs => ?_, ?_, ?_⟩
  · have hj : k.vars.schedCtx = .task j := hj
    rw [hctx] at hj
    cases hj
  · by_cases hj : j = i
    · subst hj
      exact hcode s (by simpa [hcpu] using hs)
    · exact wf.locals j s (by simpa [hcpu, hj] using hs)
  · simp [hcpu, hwait, SchedPoint]
  · simpa [hcpu] using wf.quiet

theorem Wf.tick_task (wf : Wf k) {i : Nat} (hcpu : k.cpu = .task i) : Wf k.tick := by
  have hlocals := wf.current_locals hcpu
  have hidx := (wf.running i hcpu).2.1
  have frame := k.vars.preemptHandler_frame
  have hcurrent := k.vars.preemptHandler_current
  unfold tick
  cases hp : k.vars.preemptHandler with
  | mk g switch =>
    rw [hp] at frame hcurrent
    have table : k.vars.numTasks ≤ g.numTasks ∧ g.numTasks ≤ schedMaxTasks ∧
        ∀ j < g.numTasks, (g.tasks j).context = .task j := by
      rw [frame.numTasks]
      exact ⟨Nat.le_refl _, wf.few, fun j hj => (frame.context j).trans (wf.contexts j hj)⟩
    cases switch with
    | none =>
      have hself : k.setThread k.cpu k.current = k := by simp [setThread, current]
      have keep : Wf { k.setThread k.cpu k.current with vars := g } :=
        wf.advance_task hcpu table hcurrent frame.schedCtx hlocals
      rwa [hself] at keep
    | some pair =>
      obtain ⟨cur, next⟩ := pair
      obtain ⟨hcur, hlt, hidx', -⟩ := hcurrent
      have hcur : cur = i := by
        rw [hidx] at hcur
        exact (Option.some.inj hcur).symm
      subst hcur
      have contexts : ∀ j < g.numTasks,
          ((g.modifyTask cur fun t => { t with context := k.cpu }).tasks j).context =
            .task j := by
        intro j hj
        by_cases hj' : j = cur
        · subst hj'
          simp [hcpu]
        · simpa [hj'] using table.2.2 j hj
      have hlt : next < g.numTasks := by rwa [frame.numTasks]
      have keep := wf.switch_task hcpu
        { k.current with handlers := cur :: k.current.handlers, masked := true }
        (g := g.modifyTask cur fun t => { t with context := k.cpu })
        ⟨table.1, table.2.1, contexts⟩ frame.schedCtx hlocals hlt hidx'
      dsimp only
      rwa [contexts next hlt]

theorem Wf.step_task (wf : Wf k) {i : Nat} (hcpu : k.cpu = .task i) (h : Step k a k') :
    Wf k' := by
  have hlocals := wf.current_locals hcpu
  have hidx := (wf.running i hcpu).2.1
  cases h with
  | handlerReturn hh =>
    refine wf.advance_task hcpu ⟨Nat.le_refl _, wf.few, fun j hj => ?_⟩ rfl rfl hlocals
    exact (Globals.modifyTask_field Task.context rfl j).trans (wf.contexts j hj)
  | entryReturn hh hc =>
    rw [hc] at hlocals
    exact wf.advance_task hcpu wf.table rfl rfl fun s hs => hlocals s (List.mem_cons_of_mem _ hs)
  | restoreMask hh hc =>
    rw [hc] at hlocals
    exact wf.advance_task hcpu wf.table rfl rfl fun s hs => hlocals s (List.mem_cons_of_mem _ hs)
  | @yieldBlock cur rest hh hc =>
    rw [hc] at hlocals
    refine wf.advance_task hcpu wf.table rfl rfl fun s hs => ?_
    rcases List.mem_cons.mp hs with rfl | hs
    · exact ⟨rfl, (hlocals (.yieldBlock cur) List.mem_cons_self).2⟩
    · exact hlocals s (List.mem_cons_of_mem _ hs)
  | @yieldSwap cur b' rest hh hc =>
    rw [hc] at hlocals
    have hcur : cur = i := (hlocals _ List.mem_cons_self).2 cur rfl
    subst hcur
    refine wf.release_task hcpu ⟨Nat.le_refl _, wf.few, fun j hj => ?_⟩ fun s hs => ?_
    · by_cases hj' : j = cur
      · subst hj'
        simp [hcpu]
      · simpa [hj'] using wf.contexts j hj
    · rcases List.mem_cons.mp hs with rfl | hs
      · exact ⟨rfl, nofun⟩
      · exact hlocals s (List.mem_cons_of_mem _ hs)
  | exit hh hc => exact wf.release_task hcpu wf.table nofun
  | @call op rest hh hc =>
    rw [hc] at hlocals
    refine wf.advance_task hcpu wf.table rfl rfl fun s hs => ?_
    rcases List.mem_append.mp hs with hs | hs
    · exact op.code_frame s hs
    · exact hlocals s hs
  | runBlock hh hc =>
    rw [hc] at hlocals
    cases (hlocals _ List.mem_cons_self).1
  | runSwap hh hc =>
    rw [hc] at hlocals
    cases (hlocals _ List.mem_cons_self).1
  | plain hh hc he =>
    rw [hc] at hlocals
    have hhead := hlocals _ List.mem_cons_self
    obtain ⟨hcur, hsched, hsucc⟩ := Stmt.exec_frame hhead.1 he
    refine wf.advance_task hcpu (Stmt.exec_table he wf.few wf.contexts) hcur hsched fun s hs => ?_
    rcases List.mem_append.mp hs with hs | hs
    · refine ⟨(hsucc s hs).1, fun c hc => ?_⟩
      rcases (hsucc s hs).2 c hc with hc | hc
      · exact hhead.2 c hc
      · rw [hidx] at hc
        exact (Option.some.inj hc).symm
    · exact hlocals s (List.mem_cons_of_mem _ hs)
  | tick hm => exact wf.tick_task hcpu

theorem wf_step (wf : Wf k) (ticks : TicksTasks k a) (h : system.step k a = some k') : Wf k' := by
  cases hcpu : k.cpu with
  | sched =>
    refine wf.step_sched hcpu (fun ha => ?_) (step_cases h)
    obtain ⟨i, hi⟩ := ticks ha
    rw [hcpu] at hi
    cases hi
  | task i => exact wf.step_task hcpu (step_cases h)

theorem wf_of_reach {c : Config} {ok : Machine → Action → Prop}
    (ticks : ∀ k a, ok k a → TicksTasks k a) (h : system.Reach ok c.start k) : Wf k :=
  h.invariant (wf_start c) fun k a _ wf hok hstep => wf_step wf (ticks k a hok) hstep

/-- A thread in front of a statement that names a task in a local is that task's own. -/
theorem Wf.exec_of_cur (wf : Wf k) {e : Exec} {s : Stmt} {c : Nat}
    (hs : s ∈ (k.threads e).code.head?) (hc : c ∈ s.cur) : e = .task c := by
  obtain ⟨rest, hcode⟩ := List.head?_eq_some_iff.mp hs
  cases e with
  | sched =>
    have hpoint := wf.sched
    rw [hcode] at hpoint
    obtain ⟨hrun, -⟩ | ⟨b, n, rfl, -⟩ := hpoint.cases
    · cases s <;> simp_all [Stmt.isRun, Stmt.cur]
    · cases hc
  | task i =>
    have hlocal := (wf.locals i s (by rw [hcode]; exact List.mem_cons_self)).2 c hc
    rw [hlocal]

theorem tick_cpu (wf : Wf k) :
    k.tick.cpu = k.cpu ∨ ∃ n, k.tick.cpu = .task n ∧ (k.tick.vars.tasks n).state = .running := by
  have frame := k.vars.preemptHandler_frame
  have hcurrent := k.vars.preemptHandler_current
  unfold tick
  cases hp : k.vars.preemptHandler with
  | mk g switch =>
    rw [hp] at frame hcurrent
    cases switch with
    | none => exact Or.inl rfl
    | some pair =>
      obtain ⟨cur, next⟩ := pair
      obtain ⟨-, hlt, -, hrunning⟩ := hcurrent
      have hctx : (g.tasks next).context = .task next :=
        (frame.context next).trans (wf.contexts next hlt)
      by_cases hnext : next = cur
      · subst hnext
        exact Or.inl (by simp)
      · exact Or.inr ⟨next, by simpa [hnext] using hctx, by simpa [hnext] using hrunning⟩

/-- Where the processor goes in a step. -/
theorem Wf.step_cpu (wf : Wf k) (h : Step k a k') :
    k'.cpu = k.cpu ∨ k'.cpu = .sched ∨
      ∃ n, k'.cpu = .task n ∧ (k'.vars.tasks n).state = .running := by
  have schedCtx : k.cpu ≠ .sched → k.vars.schedCtx = .sched := by
    intro hne
    cases hcpu : k.cpu with
    | sched => exact absurd hcpu hne
    | task i => exact (wf.running i hcpu).2.2.1
  cases h with
  | handlerReturn | entryReturn | restoreMask | runBlock | yieldBlock | plain | call =>
    exact Or.inl rfl
  | @runSwap next b rest hh hc =>
    have hpoint := wf.point (wf.sched_of_isRun hc rfl) hc
    obtain rfl := hpoint.alone rfl (by simp)
    obtain ⟨hlt, -, hrunning⟩ := hpoint
    exact Or.inr (Or.inr ⟨next, wf.contexts next hlt, hrunning⟩)
  | yieldSwap hh hc => exact Or.inr (Or.inl (schedCtx (wf.cpu_ne_sched hc rfl nofun)))
  | exit hh hc => exact Or.inr (Or.inl (schedCtx (wf.cpu_ne_sched hc rfl nofun)))
  | tick hm => exact (tick_cpu wf).imp_right Or.inr

/-- A blocked task does not get the processor. -/
theorem Wf.blocked_off_cpu (wf : Wf k) (h : Step k a k') {j : Nat} (hj : k.cpu ≠ .task j)
    (hb : (k'.vars.tasks j).state = .blocked) : k'.cpu ≠ .task j := by
  intro hcpu
  obtain hsame | hsched | ⟨n, hn, hrunning⟩ := wf.step_cpu h
  · exact hj (hsame.symm.trans hcpu)
  · cases hsched.symm.trans hcpu
  · obtain rfl := Exec.task.inj (hn.symm.trans hcpu)
    rw [hrunning] at hb
    cases hb

end Machine

end RtosXrce.Kernel
