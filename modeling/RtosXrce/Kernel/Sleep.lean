import RtosXrce.Kernel.TaskStates

/-!
# Sleeping

`task_sleep` turns milliseconds into ticks with a division that rounds down, and blocks until the
handler has counted as many. A task that has called it becomes READY in three other ways: the timer
forces a switch before the task has blocked, the scheduler is interrupted inside a dispatch, or a
wake loop finds the task in an array it should have left. Away from these a sleeper wakes no earlier
than it asked for.
-/

namespace RtosXrce.Kernel

open Library

namespace Config

/-- Ticks of ten milliseconds. -/
def tickOfTen : Config := { twoTasks with tickMs := 10 }

/-- Three tasks of one priority. -/
def threeTasks : Config := { twoTasks with priorities := [0, 0, 0], few := by decide }

end Config

/-! ## Milliseconds and ticks -/

/-- `ticks_to_wait` of `task_sleep`. -/
def ticksToWait (tickMs : Nat) (ms : Int) : Nat :=
  if ms / tickMs ≤ 0 then 1 else (ms / tickMs).toNat

/-- The milliseconds are a whole number of ticks, or no more than one. -/
def WholeTicks (tickMs : Nat) (ms : Int) : Prop := ms ≤ tickMs ∨ (tickMs : Int) ∣ ms

instance (tickMs : Nat) (ms : Int) : Decidable (WholeTicks tickMs ms) :=
  inferInstanceAs (Decidable (_ ∨ _))

/-- The division loses time exactly when it leaves a remainder. -/
theorem ticksToWait_enough_iff {tickMs : Nat} (hpos : 1 ≤ tickMs) (ms : Int) :
    ms ≤ ticksToWait tickMs ms * tickMs ↔ WholeTicks tickMs ms := by
  have hdiv := Int.mul_ediv_add_emod ms tickMs
  have hrem := Int.emod_nonneg ms (b := tickMs) (by omega)
  unfold ticksToWait WholeTicks
  split
  case isTrue hzero =>
    -- less than one tick is one tick
    have hlt : ms < tickMs := by
      by_contra hge
      have hone : 1 ≤ ms / tickMs := Int.le_ediv_of_mul_le (by omega) (by omega)
      omega
    simp [hlt.le]
  case isFalse hone =>
    rw [Int.toNat_of_nonneg (by omega), Int.dvd_iff_emod_eq_zero, Int.mul_comm]
    constructor
    · intro h
      exact Or.inr (by omega)
    · rintro (h | h)
      · have : (tickMs : Int) * 1 ≤ tickMs * (ms / tickMs) :=
          Int.mul_le_mul_of_nonneg_left (by omega) (by omega)
        omega
      · omega

namespace Stmt

variable {g g' : Globals} {s : Stmt} {succ : List Stmt}

/-- The task that a wake loop makes READY. -/
def wakened (g : Globals) : Stmt → Option Nat
  | wakeReady o i => (g.waiters o).slots i
  | _ => none

/-- The statement that blocks a task is followed by `task_yield`. -/
theorem exec_blocks (h : s.exec g = some (g', succ)) (hs : s.blocks = true) :
    ∃ s' ∈ succ.head?, s'.yields = true := by
  cases s <;> cases hs <;> cases h <;> exact ⟨_, rfl, rfl⟩

end Stmt

namespace Machine

variable {k k' : Machine} {a : Action}

theorem step_tickCount (h : system.step k a = some k') :
    k.vars.tickCount ≤ k'.vars.tickCount := by
  obtain ⟨-, s, rest, succ, -, he⟩ | ⟨-, -, rfl⟩ | still := step_still (step_cases h)
  · exact Nat.le_of_eq (Stmt.exec_ticks he).1.symm
  · rw [k.tick_tickCount]
    exact Nat.le_succ _
  · exact Nat.le_of_eq still.tickCount.symm

theorem Wf.step_numTasks (wf : Wf k) (h : system.step k a = some k') :
    k.vars.numTasks ≤ k'.vars.numTasks := by
  obtain ⟨-, s, rest, succ, -, he⟩ | ⟨-, -, rfl⟩ | still := step_still (step_cases h)
  · exact (Stmt.exec_table he wf.few wf.contexts).1
  · exact Nat.le_of_eq k.frame_tick.numTasks.symm
  · exact Nat.le_of_eq still.numTasks.symm

/-! ## Blocked tasks on the processor -/

/-- A blocked task that has the processor is on its way to give it up. -/
def Resting (k : Machine) : Prop :=
  ∀ i, k.cpu = .task i → (k.vars.tasks i).state = .blocked → ∃ s ∈ k.next, s.yields = true

theorem resting_start (c : Config) : Resting c.start := fun _ h => by cases h

theorem Resting.step (h : Resting k) (ctl : Controlled k) (hstep : system.step k a = some k') :
    Resting k' := by
  intro i hcpu' hb
  have hcpu : k.cpu = .task i := by
    by_contra hne
    exact ctl.wf.blocked_off_cpu (step_cases hstep) hne hb hcpu'
  obtain ⟨th, hth, moves⟩ := step_moves hstep
  rw [next_of_stays hth (hcpu'.trans hcpu.symm)]
  cases moves with
  | resume _ _ code _ state =>
    rw [code]
    exact h i hcpu (state i ▸ hb)
  | tick frame _ code =>
    rw [code]
    exact h i hcpu (frame.blocked i hb)
  | @control s rest succ frame hc hs cpu code _ state =>
    obtain ⟨s', hs', hyield⟩ := h i hcpu (state i ▸ hb)
    obtain rfl := eq_of_next hc hs'
    obtain ⟨s'', rfl, hyield' | ⟨-, hgoes⟩⟩ := Stmt.control_yields (k := k) hs hyield
    · exact ⟨s'', by rw [code]; rfl, hyield'⟩
    · rw [cpu, hgoes, (ctl.wf.running i hcpu).2.2.1] at hcpu'
      cases hcpu'
  | exit _ hc _ _ _ state =>
    obtain ⟨s', hs', hyield⟩ := h i hcpu (state i ▸ hb)
    obtain rfl := eq_of_next hc hs'
    cases hyield
  | @plain s rest succ _ hc he _ code =>
    rw [code]
    by_cases hblocks : s.blocks = true
    · obtain ⟨s', hs', hyield⟩ := Stmt.exec_blocks he hblocks
      exact ⟨s', head_append_of_some hs', hyield⟩
    · have hold := Stmt.exec_state he (by simpa using hblocks) hb
      obtain ⟨s', hs', hyield⟩ := h i hcpu hold
      obtain rfl := eq_of_next hc hs'
      obtain ⟨⟨s'', rfl, hyield'⟩, -⟩ := Stmt.exec_yields he hyield
        (by simp [(ctl.wf.running i hcpu).2.1])
      exact ⟨s'', rfl, hyield'⟩
  | call _ _ hc _ _ state =>
    obtain ⟨s', hs', hyield⟩ := h i hcpu (state i ▸ hb)
    obtain rfl := eq_of_next hc hs'
    cases hyield

/-! ## From the call on -/

/-- The step makes the task READY, if only until the handler dispatches it. -/
def Readies (k : Machine) (a : Action) (k' : Machine) (i : Nat) : Prop :=
  (k.vars.tasks i).state ≠ .ready ∧
    ((k'.vars.tasks i).state = .ready ∨ a = .tick ∧ ((k.vars.ticked 0).tasks i).state = .ready)

instance (k : Machine) (a : Action) (k' : Machine) (i : Nat) : Decidable (Readies k a k' i) :=
  inferInstanceAs (Decidable (_ ∧ _))

/-- The timer does not take the processor from a task inside `task_sleep` that has not blocked. -/
def SparesSleep (k : Machine) (a : Action) : Prop :=
  a = .tick → k.tick.cpu ≠ k.cpu → ∀ s ∈ k.next, s.sleeps = false

instance (k : Machine) (a : Action) : Decidable (SparesSleep k a) :=
  inferInstanceAs (Decidable (_ → _ → _))

/-- A wake loop makes no BLOCKED task READY that has blocked in `task_sleep`, outside of every wait
loop. -/
def SparesSleepers (k : Machine) (a : Action) : Prop :=
  a = .exec → ∀ s ∈ k.next, ∀ t ∈ s.wakened k.vars, (k.vars.tasks t).state = .blocked →
    awaited (k.threads (.task t)).code ≠ none

instance (k : Machine) (a : Action) : Decidable (SparesSleepers k a) :=
  inferInstanceAs (Decidable (_ → _))

/-- Where a task is that has called `task_sleep(ms)` and has not become READY since. Its deadline is
not before `due`. -/
inductive InSleep (k : Machine) (i due : Nat) (ms : Int) : Prop where
  | entering {s : Stmt} {rest : List Stmt} (cpu : k.cpu = .task i)
      (code : k.current.code = s :: .body :: rest)
      (stmt : s = .sleepTest ms ∨ s = .sleepCurrent ms ∨ s = .sleepWake i ms)
      (awake : (k.vars.tasks i).state ≠ .blocked)
  | dated {rest : List Stmt} (cpu : k.cpu = .task i)
      (code : k.current.code = .sleepBlock i :: .body :: rest)
      (awake : (k.vars.tasks i).state ≠ .blocked) (deadline : due ≤ (k.vars.tasks i).wakeTick)
  | blocked {s : Stmt} {rest : List Stmt} (code : (k.threads (.task i)).code = s :: .body :: rest)
      (stmt : s.yields = true ∧ s.tested = false ∨ (∃ b, s = .restoreMask b) ∧ k.cpu ≠ .task i)
      (asleep : (k.vars.tasks i).state = .blocked) (deadline : due ≤ (k.vars.tasks i).wakeTick)

/-- A tick that leaves the processor to a task that is not blocked does not make it READY. -/
theorem tick_awake (ctl' : Controlled k.tick) {i : Nat} (hcpu : k.cpu = .task i)
    (stays : k.tick.cpu = k.cpu) (awake : (k.vars.tasks i).state ≠ .blocked) :
    (k.tick.vars.tasks i).state ≠ .blocked ∧ ¬ Readies k .tick k.tick i := by
  have hticked : ((k.vars.ticked 0).tasks i).state = (k.vars.tasks i).state :=
    (k.vars.ticked_state 0 i).resolve_right fun h => awake h.1
  obtain ⟨hstate, -⟩ | ⟨cur, next, -, -, -, -, hnext, hstate⟩ := k.tick_state i
  · rw [hticked] at hstate
    refine ⟨hstate ▸ awake, fun ⟨hnot, hready⟩ => ?_⟩
    rw [hstate, hticked] at hready
    exact hready.elim hnot fun h => hnot h.2
  · -- the handler has dispatched the task it interrupted
    have hidx := (ctl'.wf.running i (stays.trans hcpu)).2.1
    obtain rfl : next = i := Option.some.inj (hnext.symm.trans hidx)
    rw [if_pos rfl] at hstate
    refine ⟨by simp [hstate], fun ⟨hnot, hready⟩ => ?_⟩
    rw [hstate, hticked] at hready
    exact hready.elim (fun h => by cases h) fun h => hnot h.2

theorem InSleep.tick {i due : Nat} {ms : Int} (h : InSleep k i due ms)
    (ctl' : Controlled k.tick) (spares : SparesSleep k .tick) {th : Thread}
    (hth : k.tick.threads = Function.update k.threads k.cpu th) (hcode : th.code = k.current.code)
    (off : ∀ j, k.cpu ≠ .task j → (k.tick.vars.tasks j).state = .blocked →
      k.tick.cpu ≠ .task j) :
    (InSleep k.tick i due ms ∧ ¬ Readies k .tick k.tick i) ∨
      Readies k .tick k.tick i ∧ due ≤ k.tick.vars.tickCount := by
  have same : ∀ j, (k.tick.threads (.task j)).code = (k.threads (.task j)).code := by
    intro j
    by_cases hj : Exec.task j = k.cpu
    · rw [hj, thread_self hth, hcode]
      rfl
    · rw [thread_other hth hj]
  -- the task is on the processor and goes on there
  have runs : ∀ {s rest}, k.cpu = .task i → k.current.code = s :: rest → s.sleeps = true →
      (k.vars.tasks i).state ≠ .blocked → k.tick.cpu = .task i ∧
        k.tick.current.code = s :: rest ∧ (k.tick.vars.tasks i).state ≠ .blocked ∧
        ¬ Readies k .tick k.tick i := by
    intro s rest hcpu hc hs awake
    have stays : k.tick.cpu = k.cpu := by
      by_contra hne
      rw [spares rfl hne s (next_eq hc)] at hs
      cases hs
    obtain ⟨hstate, hnot⟩ := tick_awake ctl' hcpu stays awake
    refine ⟨stays.trans hcpu, ?_, hstate, hnot⟩
    rw [current, stays, thread_self hth, hcode, hc]
  cases h with
  | @entering s rest cpu code stmt awake =>
    have hsleeps : s.sleeps = true := by
      rcases stmt with rfl | rfl | rfl <;> rfl
    obtain ⟨hcpu', hcode', hawake', hnot⟩ := runs cpu code hsleeps awake
    exact Or.inl ⟨.entering hcpu' hcode' stmt hawake', hnot⟩
  | dated cpu code awake deadline =>
    obtain ⟨hcpu', hcode', hawake', hnot⟩ := runs cpu code rfl awake
    refine Or.inl ⟨.dated hcpu' hcode' hawake' ?_, hnot⟩
    rwa [k.frame_tick.wakeTick i (Or.inl awake)]
  | blocked code stmt asleep deadline =>
    by_cases hready : ((k.vars.ticked 0).tasks i).state = .ready
    · have hdue : k.vars.Due i := by
        obtain hsame | ⟨-, hdue, -⟩ := k.vars.ticked_state 0 i
        · rw [hsame, asleep] at hready
          cases hready
        · exact hdue
      refine Or.inr ⟨⟨by simp [asleep], Or.inr ⟨rfl, hready⟩⟩, ?_⟩
      rw [k.tick_tickCount]
      exact deadline.trans hdue.2
    · have hlate : ((k.vars.ticked 0).tasks i).state = .blocked := by
        obtain hsame | ⟨-, -, hr⟩ := k.vars.ticked_state 0 i
        · rw [hsame, asleep]
        · exact absurd hr hready
      have hblocked : (k.tick.vars.tasks i).state = .blocked := tick_blocked hlate
      refine Or.inl ⟨.blocked ((same i).trans code) (stmt.imp_right fun h => ⟨h.1, ?_⟩) hblocked ?_,
        fun h => ?_⟩
      · exact off i h.2 hblocked
      · rwa [k.frame_tick.wakeTick i (Or.inr hblocked)]
      · rw [Readies, hblocked] at h
        exact h.2.elim (fun h => by cases h) fun h => hready h.2

theorem not_readies {i : Nat} (ha : a ≠ .tick)
    (state : (k'.vars.tasks i).state = (k.vars.tasks i).state ∨ (k'.vars.tasks i).state ≠ .ready) :
    ¬ Readies k a k' i := by
  rintro ⟨hnot, hready | ⟨htick, -⟩⟩
  · exact state.elim (fun h => hnot (h.symm.trans hready)) fun h => h hready
  · exact ha htick

/-- The task is in no wait loop. -/
theorem InSleep.not_waiting {i due : Nat} {ms : Int} (h : InSleep k i due ms) :
    awaited (k.threads (.task i)).code = none := by
  cases h with
  | entering cpu code =>
    rw [code_of_cpu cpu code]
    rfl
  | dated cpu code =>
    rw [code_of_cpu cpu code]
    rfl
  | blocked code =>
    rw [code]
    rfl

/-- The statement that the task runs next. -/
theorem InSleep.head {i due : Nat} {ms : Int} (h : InSleep k i due ms) (hcpu : k.cpu = .task i)
    {s : Stmt} {rest : List Stmt} (hc : k.current.code = s :: rest) :
    s.sleeps = true ∧ (∀ b, s.control b = none) ∨
      s.yields = true ∧ (∃ r, rest = .body :: r) ∧ (k.vars.tasks i).state = .blocked ∧
        due ≤ (k.vars.tasks i).wakeTick := by
  cases h with
  | entering _ code stmt =>
    obtain ⟨rfl, -⟩ := List.cons.inj (hc.symm.trans code)
    left
    rcases stmt with rfl | rfl | rfl <;> exact ⟨rfl, fun _ => rfl⟩
  | dated _ code =>
    obtain ⟨rfl, -⟩ := List.cons.inj (hc.symm.trans code)
    exact Or.inl ⟨rfl, fun _ => rfl⟩
  | blocked code stmt asleep deadline =>
    rw [code_of_cpu hcpu hc] at code
    obtain ⟨rfl, rfl⟩ := List.cons.inj code
    exact Or.inr ⟨(stmt.resolve_right fun h => h.2 hcpu).1, ⟨_, rfl⟩, asleep, deadline⟩

/-- A step of another execution that leaves the task blocked. -/
theorem InSleep.other {i due : Nat} {ms : Int} (h : InSleep k i due ms) (hne : k.cpu ≠ .task i)
    (ha : a ≠ .tick) {th : Thread} (hth : k'.threads = Function.update k.threads k.cpu th)
    (off : (k'.vars.tasks i).state = .blocked → k'.cpu ≠ .task i)
    (state : (k.vars.tasks i).state = .blocked → (k'.vars.tasks i).state = .blocked ∧
      (k'.vars.tasks i).wakeTick = (k.vars.tasks i).wakeTick) :
    InSleep k' i due ms ∧ ¬ Readies k a k' i := by
  cases h with
  | entering cpu => exact absurd cpu hne
  | dated cpu => exact absurd cpu hne
  | blocked code stmt asleep deadline =>
    obtain ⟨hblocked, hwake⟩ := state asleep
    have hcode := (congrArg Thread.code (thread_other hth (Ne.symm hne))).trans code
    exact ⟨.blocked hcode (stmt.imp_right fun h => ⟨h.1, off hblocked⟩) hblocked
      (deadline.trans_eq hwake.symm), not_readies ha (Or.inr (by simp [hblocked]))⟩

section Own

variable {i due : Nat} {ms : Int} {s : Stmt} {rest succ : List Stmt} {th : Thread}
  (hcpu : k.cpu = .task i) (hth : k'.threads = Function.update k.threads k.cpu th)
  (cpu : k'.cpu = k.cpu) (code : th.code = succ ++ .body :: rest)
include hcpu hth cpu code

/-- The statements of `task_sleep` up to the store of the deadline. -/
theorem InSleep.enter (hms : 0 < ms)
    (hdue : due ≤ k.vars.tickCount + ticksToWait k.vars.tickMs ms)
    (hidx : k.vars.currentIdx = some i) (awake : (k.vars.tasks i).state ≠ .blocked)
    (stmt : s = .sleepTest ms ∨ s = .sleepCurrent ms ∨ s = .sleepWake i ms)
    (he : s.exec k.vars = some (k'.vars, succ)) :
    InSleep k' i due ms ∧ (k'.vars.tasks i).state = (k.vars.tasks i).state := by
  have hcode : k'.current.code = succ ++ .body :: rest := by
    rw [current, cpu, thread_self hth, code]
  have hcpu' : k'.cpu = .task i := cpu.trans hcpu
  rcases stmt with rfl | rfl | rfl
  · obtain ⟨hvars, hsucc⟩ := Prod.mk.inj (Option.some.inj he)
    have hgo : ¬ (k.vars.currentIdx = none ∨ ms ≤ 0) := by
      simp only [hidx, reduceCtorEq, false_or]
      omega
    rw [if_neg hgo] at hsucc
    subst hsucc
    exact ⟨.entering hcpu' hcode (Or.inr (Or.inl rfl)) (by rwa [← hvars]), by rw [← hvars]⟩
  · simp only [Stmt.exec, hidx, Option.map_some, Option.some.injEq, Prod.mk.injEq] at he
    obtain ⟨hvars, rfl⟩ := he
    exact ⟨.entering hcpu' hcode (Or.inr (Or.inr rfl)) (by rwa [← hvars]), by rw [← hvars]⟩
  · obtain ⟨hvars, rfl⟩ := Prod.mk.inj (Option.some.inj he)
    have hstate : (k'.vars.tasks i).state = (k.vars.tasks i).state := by simp [← hvars]
    have hwake : (k'.vars.tasks i).wakeTick =
        k.vars.tickCount + ticksToWait k.vars.tickMs ms := by
      rw [← hvars]
      simp [ticksToWait]
    exact ⟨.dated hcpu' hcode (by rwa [hstate]) (hdue.trans_eq hwake.symm), hstate⟩

omit cpu in
/-- The statements of `task_yield` that a blocked task runs. -/
theorem InSleep.yield (ctl' : Controlled k') (hidx : k.vars.currentIdx = some i)
    (hyield : s.yields = true) (tested : s.tested = false)
    (asleep : (k.vars.tasks i).state = .blocked) (deadline : due ≤ (k.vars.tasks i).wakeTick)
    (he : s.exec k.vars = some (k'.vars, succ)) :
    InSleep k' i due ms ∧ (k'.vars.tasks i).state = (k.vars.tasks i).state := by
  have hcode : (k'.threads (.task i)).code = succ ++ .body :: rest := by
    rw [thread_of_cpu hth hcpu, code]
  obtain ⟨⟨s', rfl, hyield'⟩, hsame | ⟨c, rfl, -⟩⟩ := Stmt.exec_yields he hyield (by simp [hidx])
  · have untested : s'.tested = false := by
      cases s' <;> cases hyield' <;> try rfl
      case yieldReady c =>
        -- only a RUNNING task is made READY
        have hself := ctl'.wf.exec_of_cur (e := .task i) (by rw [hcode]; rfl) (c := c) rfl
        obtain rfl := Exec.task.inj hself
        have hrun := Stmt.exec_yieldReady he rfl
        rw [hsame, asleep] at hrun
        cases hrun
    rw [hsame]
    refine ⟨.blocked hcode (Or.inl ⟨hyield', untested⟩) ?_ ?_, rfl⟩
    · rwa [hsame]
    · rwa [hsame]
  · cases tested

end Own

theorem InSleep.plain {i due : Nat} {ms : Int} (h : InSleep k i due ms) (ctl : Controlled k)
    (ctl' : Controlled k') (hcpu : k.cpu = .task i) {th : Thread}
    (hth : k'.threads = Function.update k.threads k.cpu th) (cpu : k'.cpu = k.cpu) (hms : 0 < ms)
    (hdue : due ≤ k.vars.tickCount + ticksToWait k.vars.tickMs ms) {s : Stmt}
    {rest succ : List Stmt} (hc : k.current.code = s :: rest)
    (he : s.exec k.vars = some (k'.vars, succ)) (code : th.code = succ ++ rest) :
    InSleep k' i due ms ∧ ¬ Readies k .exec k' i := by
  have hidx := (ctl.wf.running i hcpu).2.1
  cases h with
  | entering _ hcode stmt awake =>
    obtain ⟨rfl, rfl⟩ := List.cons.inj (hc.symm.trans hcode)
    obtain ⟨hsleep, hstate⟩ := InSleep.enter hcpu hth cpu code hms hdue hidx awake stmt he
    exact ⟨hsleep, not_readies (by simp) (Or.inl hstate)⟩
  | dated _ hcode _ deadline =>
    obtain ⟨rfl, rfl⟩ := List.cons.inj (hc.symm.trans hcode)
    obtain ⟨hvars, rfl⟩ := Prod.mk.inj (Option.some.inj he)
    have hblocked : (k'.vars.tasks i).state = .blocked := by simp [← hvars]
    have hself := (congrArg Thread.code (thread_of_cpu hth hcpu)).trans code
    refine ⟨.blocked hself (Or.inl ⟨rfl, rfl⟩) hblocked ?_,
      not_readies (by simp) (Or.inr (by simp [hblocked]))⟩
    simpa [← hvars] using deadline
  | blocked hcode stmt asleep deadline =>
    rw [code_of_cpu hcpu hc] at hcode
    obtain ⟨rfl, rfl⟩ := List.cons.inj hcode
    obtain ⟨hyield, tested⟩ := stmt.resolve_right fun h => h.2 hcpu
    obtain ⟨hsleep, hstate⟩ :=
      InSleep.yield hcpu hth code ctl' hidx hyield tested asleep deadline he
    exact ⟨hsleep, not_readies (by simp) (Or.inl hstate)⟩

/-- The `swapcontext` of `task_yield`, and the `block_alarm` in front of it. -/
theorem InSleep.control {i due : Nat} {ms : Int} (h : InSleep k i due ms) (ctl : Controlled k)
    (hcpu : k.cpu = .task i) {th : Thread}
    (hth : k'.threads = Function.update k.threads k.cpu th) (frame : k.vars.Frame k'.vars)
    {s : Stmt} {rest succ : List Stmt} (hc : k.current.code = s :: rest)
    (hs : s.control k.current.masked = some succ) (cpu : k'.cpu = s.goesTo k)
    (code : th.code = succ ++ rest)
    (state : ∀ j, (k'.vars.tasks j).state = (k.vars.tasks j).state) :
    InSleep k' i due ms ∧ ¬ Readies k .exec k' i := by
  refine ⟨?_, not_readies (by simp) (Or.inl (state i))⟩
  obtain ⟨-, hnone⟩ | ⟨hyield, ⟨r, rfl⟩, asleep, deadline⟩ := h.head hcpu hc
  · cases (hnone _).symm.trans hs
  · have hself := (congrArg Thread.code (thread_of_cpu hth hcpu)).trans code
    have hblocked := (state i).trans asleep
    have hdeadline := deadline.trans_eq (frame.wakeTick i (Or.inr hblocked)).symm
    obtain ⟨s', rfl, hyield' | ⟨hrestore, hgoes⟩⟩ := Stmt.control_yields (k := k) hs hyield
    · exact .blocked hself (Or.inl ⟨hyield', Stmt.control_tested hs s' rfl⟩) hblocked hdeadline
    · refine .blocked hself (Or.inr ⟨hrestore, ?_⟩) hblocked hdeadline
      rw [cpu, hgoes, (ctl.wf.running i hcpu).2.2.1]
      exact Exec.noConfusion

/-- The return of an interrupted handler of the task. -/
theorem InSleep.resume {i due : Nat} {ms : Int} (h : InSleep k i due ms) (hcpu : k.cpu = .task i)
    {th : Thread} (hth : k'.threads = Function.update k.threads k.cpu th)
    (frame : k.vars.Frame k'.vars) (cpu : k'.cpu = k.cpu) (code : th.code = k.current.code)
    (state : ∀ j, (k'.vars.tasks j).state = (k.vars.tasks j).state) :
    InSleep k' i due ms ∧ ¬ Readies k .exec k' i := by
  refine ⟨?_, not_readies (by simp) (Or.inl (state i))⟩
  have hcurrent : k'.current.code = k.current.code := by rw [current, cpu, thread_self hth, code]
  cases h with
  | entering _ hcode stmt awake =>
    exact .entering (cpu.trans hcpu) (hcurrent.trans hcode) stmt (by rwa [state])
  | dated _ hcode awake deadline =>
    refine .dated (cpu.trans hcpu) (hcurrent.trans hcode) (by rwa [state]) ?_
    rwa [frame.wakeTick i (Or.inl awake)]
  | blocked hcode stmt asleep deadline =>
    have hblocked := (state i).trans asleep
    have hself := (congrArg Thread.code (thread_of_cpu hth hcpu)).trans code
    rw [current, hcpu, hcode] at hself
    exact .blocked hself (stmt.imp_right fun h => absurd hcpu h.2) hblocked
      (deadline.trans_eq (frame.wakeTick i (Or.inr hblocked)).symm)

/-- What one step does to a task in `task_sleep`. -/
theorem InSleep.step {i due : Nat} {ms : Int} (h : InSleep k i due ms) (hms : 0 < ms)
    (hlt : i < k.vars.numTasks) (hdue : due ≤ k.vars.tickCount + ticksToWait k.vars.tickMs ms)
    (ctl : Controlled k) (ctl' : Controlled k') (spares : SparesSleep k a)
    (sleepers : SparesSleepers k a) (hstep : system.step k a = some k') :
    (InSleep k' i due ms ∧ ¬ Readies k a k' i) ∨
      Readies k a k' i ∧ due ≤ k'.vars.tickCount := by
  have off : ∀ j, k.cpu ≠ .task j → (k'.vars.tasks j).state = .blocked → k'.cpu ≠ .task j :=
    fun j => ctl.wf.blocked_off_cpu (step_cases hstep)
  obtain ⟨th, hth, moves⟩ := step_moves hstep
  by_cases htick : a = .tick
  · subst htick
    cases moves with
    | tick _ ticked code =>
      subst ticked
      exact h.tick ctl' spares hth code off
  refine Or.inl ?_
  by_cases hcpu : k.cpu = .task i
  case neg =>
    refine h.other hcpu htick hth (off i hcpu) fun asleep => ?_
    cases moves with
    | tick => exact absurd rfl htick
    | plain _ hc he =>
      refine ⟨ctl.stays_blocked hc he hlt hcpu asleep ?_, Stmt.exec_wakeTick he hlt ?_⟩
      · rintro o j rfl hslot
        exact sleepers rfl _ (next_eq hc) i hslot asleep h.not_waiting
      · rintro ms' rfl
        exact hcpu (ctl.wf.exec_of_cur (next_eq hc) rfl)
    | resume frame _ _ _ state | control frame _ _ _ _ _ state | exit frame _ _ _ _ state
    | call frame _ _ _ _ state =>
      have hblocked := (state i).trans asleep
      exact ⟨hblocked, frame.wakeTick i (Or.inr hblocked)⟩
  case pos =>
    cases moves with
    | tick => exact absurd rfl htick
    | resume frame cpu code _ state => exact h.resume hcpu hth frame cpu code state
    | control frame hc hs cpu code _ state =>
      exact h.control ctl hcpu hth frame hc hs cpu code state
    | exit _ hc =>
      obtain ⟨hsleeps, -⟩ | ⟨hyield, -⟩ := h.head hcpu hc
      · cases hsleeps
      · cases hyield
    | call _ _ hc =>
      obtain ⟨hsleeps, -⟩ | ⟨hyield, -⟩ := h.head hcpu hc
      · cases hsleeps
      · cases hyield
    | plain _ hc he cpu code => exact h.plain ctl ctl' hcpu hth cpu hms hdue hc he code

/-- The steps after which a sleeper is woken by nothing but its deadline. -/
structure SparesSleeping (k : Machine) (a : Action) : Prop where
  dispatch : SparesDispatch k a
  sleep : SparesSleep k a
  sleepers : SparesSleepers k a

instance (k : Machine) (a : Action) : Decidable (SparesSleeping k a) :=
  decidable_of_iff (SparesDispatch k a ∧ SparesSleep k a ∧ SparesSleepers k a)
    ⟨fun h => ⟨h.1, h.2.1, h.2.2⟩, fun h => ⟨h.dispatch, h.sleep, h.sleepers⟩⟩

/-- The states of the runs, of steps that meet `ok`, in which the task `i` has called
`task_sleep(ms)` at the tick `t` and has not become READY since. -/
inductive Sleeping (ok : Machine → Action → Prop) (c : Config) (i t : Nat) (ms : Int) :
    Machine → Prop where
  | call {k k' : Machine} (run : system.Reach ok c.start k) (caller : k.cpu = .task i)
      (clock : k.vars.tickCount = t) (allowed : ok k (.call (.sleep ms)))
      (step : system.step k (.call (.sleep ms)) = some k') : Sleeping ok c i t ms k'
  | step {k k' : Machine} {a : Action} (before : Sleeping ok c i t ms k) (allowed : ok k a)
      (step : system.step k a = some k') (asleep : ¬ Readies k a k' i) : Sleeping ok c i t ms k'

section

variable {ok : Machine → Action → Prop} {c : Config} {i t : Nat} {ms : Int}

theorem Sleeping.reach (h : Sleeping ok c i t ms k) : system.Reach ok c.start k := by
  induction h with
  | call run _ _ allowed step => exact run.tail allowed step
  | step _ allowed step _ ih => exact ih.tail allowed step

theorem tickMs_of_reach (h : system.Reach ok c.start k) : k.vars.tickMs = c.tickMs :=
  h.invariant (I := fun k => k.vars.tickMs = c.tickMs) rfl fun _ _ _ hk _ hstep =>
    (step_parameters (step_cases hstep)).1.trans hk

theorem resting_of_reach (spares : ∀ k a, ok k a → SparesDispatch k a)
    (h : system.Reach ok c.start k) : Resting k :=
  h.invariant_with (fun _ => controlled_of_reach spares) (resting_start c)
    fun _ _ _ ctl resting _ hstep => resting.step ctl hstep

theorem InSleep.next (spares : ∀ k a, ok k a → SparesSleeping k a) (hms : 0 < ms)
    (run : system.Reach ok c.start k) (h : InSleep k i (t + ticksToWait c.tickMs ms) ms)
    (ht : t ≤ k.vars.tickCount) (hlt : i < k.vars.numTasks) (allowed : ok k a)
    (step : system.step k a = some k') :
    (InSleep k' i (t + ticksToWait c.tickMs ms) ms ∧ ¬ Readies k a k' i) ∨
      Readies k a k' i ∧ t + ticksToWait c.tickMs ms ≤ k'.vars.tickCount := by
  have ctl := controlled_of_reach (fun k a hok => (spares k a hok).dispatch) run
  have hok := spares k a allowed
  have hdue : t + ticksToWait c.tickMs ms ≤
      k.vars.tickCount + ticksToWait k.vars.tickMs ms := by
    rw [tickMs_of_reach run]
    exact Nat.add_le_add_right ht _
  exact h.step hms hlt hdue ctl (ctl.step hok.dispatch step) hok.sleep hok.sleepers step

/-- The task is in `task_sleep`, and its deadline is as far off as the milliseconds say. -/
theorem Sleeping.inSleep (spares : ∀ k a, ok k a → SparesSleeping k a) (hms : 0 < ms)
    (h : Sleeping ok c i t ms k) :
    InSleep k i (t + ticksToWait c.tickMs ms) ms ∧ t ≤ k.vars.tickCount ∧
      i < k.vars.numTasks := by
  have dispatch := fun k a hok => (spares k a hok).dispatch
  induction h with
  | @call k k' run caller clock allowed step =>
    have ctl := controlled_of_reach dispatch run
    cases step_cases step with
    | @call _ rest _ hc =>
      have hlt := (ctl.wf.running i caller).1
      have hself (th : Thread) : (k.setThread k.cpu th).current = th := by
        simp only [current, setThread_threads, setThread_cpu, Function.update_self]
      refine ⟨.entering caller (congrArg Thread.code (hself _)) (Or.inl rfl) ?_, ?_, hlt⟩
      · intro hb
        obtain ⟨s, hs, hyield⟩ := resting_of_reach dispatch run i caller hb
        obtain rfl := eq_of_next hc hs
        cases hyield
      · exact Nat.le_of_eq clock.symm
  | step before allowed step asleep ih =>
    obtain ⟨hsleep, ht, hlt⟩ := ih
    have wf := (controlled_of_reach dispatch before.reach).wf
    obtain ⟨hnext, -⟩ | ⟨hready, -⟩ := hsleep.next spares hms before.reach ht hlt allowed step
    · exact ⟨hnext, ht.trans (step_tickCount step), hlt.trans_le (wf.step_numTasks step)⟩
    · exact absurd hready asleep

end

/-- A sleep of whole ticks, or of at most one, is not cut short: in every run in which no forced
switch hits a dispatch or a task that has not blocked yet in `task_sleep`, and no wake loop finds a
sleeper, a task that has called `task_sleep(ms)` next becomes READY when at least `ms` milliseconds
of ticks have passed. -/
theorem sleep_not_early (c : Config) (tickMs : 1 ≤ c.tickMs) {i t : Nat} {ms : Int}
    (whole : WholeTicks c.tickMs ms) {k k' : Machine} {a : Action}
    (sleeping : Sleeping SparesSleeping c i t ms k) (spares : SparesSleeping k a)
    (step : system.step k a = some k') (ready : Readies k a k' i) :
    ms ≤ ((k'.vars.tickCount - t : Nat) : Int) * c.tickMs := by
  by_cases hms : 0 < ms
  case neg =>
    have hnonneg : (0 : Int) ≤ ((k'.vars.tickCount - t) * c.tickMs : Nat) := Int.natCast_nonneg _
    rw [Int.natCast_mul] at hnonneg
    omega
  case pos =>
    obtain ⟨hsleep, ht, hlt⟩ := sleeping.inSleep (fun _ _ h => h) hms
    obtain ⟨-, hnot⟩ | ⟨-, hdeadline⟩ :=
      hsleep.next (fun _ _ h => h) hms sleeping.reach ht hlt spares step
    · exact absurd ready hnot
    · calc ms ≤ ticksToWait c.tickMs ms * c.tickMs := (ticksToWait_enough_iff tickMs ms).mpr whole
        _ ≤ ((k'.vars.tickCount - t : Nat) : Int) * c.tickMs :=
          Int.mul_le_mul_of_nonneg_right (by omega) (by omega)

/-- Finds a state of a sleep by evaluating the run before the call and the run after it. -/
theorem exists_sleeping {ok : Machine → Action → Prop} [∀ k a, Decidable (ok k a)] {c : Config}
    {i t : Nat} {ms : Int} {P : Machine → Prop} [DecidablePred P] (before after : List Action)
    (h : (system.runGuarded ok c.start before).any (fun k => k.cpu = .task i ∧
      k.vars.tickCount = t ∧ ok k (.call (.sleep ms)) ∧
      (system.step k (.call (.sleep ms))).any (fun k => (system.runGuarded
        (fun k a => ok k a ∧ ∀ k' ∈ system.step k a, ¬ Readies k a k' i) k after).any
          fun k => P k)) = true) :
    ∃ k, Sleeping ok c i t ms k ∧ P k := by
  obtain ⟨k, hbefore, hcall⟩ := (Option.any_eq_true _ _).mp h
  obtain ⟨caller, clock, allowed, hcall⟩ := of_decide_eq_true hcall
  obtain ⟨k', step, hafter⟩ := (Option.any_eq_true _ _).mp hcall
  obtain ⟨k'', hafter, hP⟩ := (Option.any_eq_true _ _).mp hafter
  refine ⟨k'', ?_, of_decide_eq_true hP⟩
  have sleeping : Sleeping ok c i t ms k' :=
    .call (System.reach_of_runGuarded hbefore) caller clock allowed step
  exact (System.reach_of_runGuarded hafter).invariant sleeping fun _ _ _ sleeping hok step =>
    sleeping.step hok.1 step (hok.2 _ step)

/-- Sleeps 20 ms in ticks of 10 ms: the second tick wakes the task. -/
theorem sleep_not_early_two_ticks :
    ∃ k k', Sleeping SparesSleeping .tickOfTen 0 0 20 k ∧ system.step k .tick = some k' ∧
      Readies k .tick k' 0 ∧ k'.vars.tickCount = 2 ∧
      (20 : Int) ≤ ((k'.vars.tickCount - 0 : Nat) : Int) * Config.tickOfTen.tickMs := by
  obtain ⟨k, sleeping, spares, hstep⟩ : ∃ k, Sleeping SparesSleeping .tickOfTen 0 0 20 k ∧
      SparesSleeping k .tick ∧ (system.step k .tick).any (fun k' => Readies k .tick k' 0 ∧
        k'.vars.tickCount = 2) = true :=
    exists_sleeping (script 7 []) (script 10 [(.tick, 0)]) (by decide +kernel)
  obtain ⟨k', step, hready⟩ := (Option.any_eq_true _ _).mp hstep
  obtain ⟨ready, clock⟩ := of_decide_eq_true hready
  exact ⟨k, k', sleeping, step, ready, clock,
    sleep_not_early .tickOfTen (by decide) (by decide) sleeping spares step ready⟩

/-- Sleeps 15 ms in ticks of 10 ms: the division leaves one tick, which wakes the task. -/
theorem sleep_early_by_rounding :
    ∃ k k', Sleeping SparesSleeping .tickOfTen 0 0 15 k ∧ system.step k .tick = some k' ∧
      Readies k .tick k' 0 ∧
      ¬ (15 : Int) ≤ ((k'.vars.tickCount - 0 : Nat) : Int) * Config.tickOfTen.tickMs := by
  obtain ⟨k, sleeping, hstep⟩ : ∃ k, Sleeping SparesSleeping .tickOfTen 0 0 15 k ∧
      (system.step k .tick).any (fun k' => Readies k .tick k' 0 ∧
        ¬ (15 : Int) ≤ ((k'.vars.tickCount - 0 : Nat) : Int) * Config.tickOfTen.tickMs) = true :=
    exists_sleeping (script 7 []) (script 10 []) (by decide +kernel)
  obtain ⟨k', step, hready⟩ := (Option.any_eq_true _ _).mp hstep
  exact ⟨k, k', sleeping, step, of_decide_eq_true hready⟩

/-- A wake loop finds a sleeper only after a forced switch inside a wait or a wake loop. -/
theorem sparesSleepers_of_reach {c : Config}
    (h : system.Reach (fun k a => SparesDispatch k a ∧ SparesWait k a ∧ SparesRouse k a)
      c.start k) : SparesSleepers k a := by
  intro _ s hs t ht _ hnone
  have enl : Enlisted k := enlisted_of_reach (fun _ _ hok => hok) h
  obtain ⟨rest, hc⟩ := List.head?_eq_some_iff.mp hs
  cases s with
  | wakeReady o j =>
    rw [(enl.found hc ht).awaited] at hnone
    cases hnone
  | _ => cases ht

/-- The third task is interrupted in the wake loop of its `sem_post`, after it has made the first
READY and before it has cleared the array. -/
def staleWaiterRun : List Action :=
  script 7 [(.call (.wait (.named 0)), 18), (.call .yield, 15), (.call (.post (.named 0)), 3),
    (.tick, 3)]

/-- The first task has taken the semaphore and sleeps; the `sem_post` of the second still finds it
in the array. -/
theorem sleeper_woken_by_post :
    ∃ k k', Sleeping (fun k a => SparesDispatch k a ∧ SparesSleep k a) .threeTasks 0 1 100 k ∧
      system.step k .exec = some k' ∧ Readies k .exec k' 0 ∧ k'.vars.tickCount = 1 := by
  obtain ⟨k, sleeping, hstep⟩ : ∃ k, Sleeping (fun k a => SparesDispatch k a ∧ SparesSleep k a)
      .threeTasks 0 1 100 k ∧ (system.step k .exec).any (fun k' => Readies k .exec k' 0 ∧
        k'.vars.tickCount = 1) = true :=
    exists_sleeping staleWaiterRun (script 19 [(.call (.post (.named 0)), 2)]) (by decide +kernel)
  obtain ⟨k', step, hready⟩ := (Option.any_eq_true _ _).mp hstep
  exact ⟨k, k', sleeping, step, of_decide_eq_true hready⟩

end Machine

end RtosXrce.Kernel
