import RtosXrce.Kernel.RoundRobin

/-!
# Handing the processor to a task

`scheduler_run` and `preempt_handler` both end in a `swapcontext` to the task that
`pick_next_ready` found. An observer notes which task got the processor last, how often that was
another one than before, and how many ticks found it RUNNING since. `g_switch_count` is raised also
where the task found is the one that ran before, and `g_ticks_since_switch` is not set back where
`scheduler_run` dispatches.
-/

namespace RtosXrce.Kernel

open Library

namespace Globals

variable {g : Globals} {c : Nat}

/-- Another READY task has at least the priority of `c`. -/
def HasRival (g : Globals) (c : Nat) : Prop :=
  ∃ i < g.numTasks, i ≠ c ∧ (g.tasks i).state = .ready ∧
    (g.tasks c).priority ≤ (g.tasks i).priority

instance (g : Globals) (c : Nat) : Decidable (g.HasRival c) :=
  inferInstanceAs (Decidable (∃ i < g.numTasks, _))

/-- `pick_next_ready` tries the task that `g_current_idx` names last. -/
theorem pickNextReady_ne_of_hasRival (hidx : g.currentIdx = some c) (rival : g.HasRival c) :
    g.pickNextReady ≠ some c := by
  intro hpick
  obtain ⟨i, hi, hne, ready, hprio⟩ := rival
  obtain ⟨hc, -, hmax, -⟩ := g.pickNextReady_spec.2 c hpick
  have same : (g.tasks c).priority = (g.tasks i).priority := Int.le_antisymm hprio (hmax i hi ready)
  obtain rfl | between := pickNextReady_between hpick hidx hc hi hne.symm ready same
  · exact hne rfl
  · unfold Between at between
    omega

theorem HasRival.setState (rival : g.HasRival c) (state : TaskState) :
    (g.setState c state).HasRival c := by
  obtain ⟨i, hi, hne, ready, hprio⟩ := rival
  exact ⟨i, hi, hne, by simpa [hne] using ready, by simpa [hne] using hprio⟩

/-- The handler counts a tick towards the slice where it finds the current task RUNNING. -/
theorem preemptHandler_ticksSinceSwitch (g : Globals) :
    g.preemptHandler.1.ticksSinceSwitch ≤ g.ticksSinceSwitch ∨
      g.preemptHandler.1.ticksSinceSwitch ≤ g.ticksSinceSwitch + 1 ∧
        ∃ c ∈ g.currentIdx, (g.tasks c).state = .running := by
  obtain ⟨n, rfl | ⟨rfl, cur, hidx, hrun⟩, h⟩ | ⟨cur, -, -, h⟩ | ⟨cur, next, -, -, -, h⟩ :=
    g.preemptHandler_cases
  · rw [h]
    exact Or.inl (Nat.le_refl _)
  · rw [h]
    exact Or.inr ⟨Nat.le_refl _, cur, hidx, ticked_running.mp hrun⟩
  · rw [h]
    exact Or.inl (Nat.zero_le _)
  · rw [h]
    exact Or.inl (Nat.zero_le _)

theorem preemptHandler_switchCount (h : g.preemptHandler.2 = none) :
    g.preemptHandler.1.switchCount = g.switchCount := by
  obtain ⟨n, -, h'⟩ | ⟨cur, -, -, h'⟩ | ⟨cur, next, -, -, -, h'⟩ := g.preemptHandler_cases <;>
    rw [h'] at h ⊢
  · rfl
  · rfl
  · cases h

/-- A forced switch ends a slice, and starts one. -/
theorem preemptHandler_ends_slice {g' : Globals} {cur next : Nat}
    (h : g.preemptHandler = (g', some (cur, next))) :
    g.ticksPerSlice ≤ g.ticksSinceSwitch + 1 ∧ g'.ticksSinceSwitch = 0 := by
  obtain ⟨-, -, rfl⟩ := preemptHandler_switches h
  exact ⟨(switchDue_of_switches h).2.1, rfl⟩

end Globals

theorem Stmt.exec_counters {g g' : Globals} {s : Stmt} {succ : List Stmt}
    (h : s.exec g = some (g', succ)) :
    g'.ticksSinceSwitch = g.ticksSinceSwitch ∧
      (s.isRun = false → g'.switchCount = g.switchCount) := by
  cases exec_stores h with
  | spawn p =>
    unfold Globals.taskSpawn
    split <;> exact ⟨rfl, fun _ => rfl⟩
  | runCount => exact ⟨rfl, fun h => by cases h⟩
  | wakeClear o => cases o <;> exact ⟨rfl, fun _ => rfl⟩
  | _ => exact ⟨rfl, fun _ => rfl⟩

/-- One task, preempted at every tick. -/
def Config.lonely : Config := { Config.twoTasks with priorities := [0], few := by decide }

/-- Two tasks of one priority, preempted at every second tick. -/
def Config.slicesOfTwo : Config := { Config.twoTasks with ticksPerSlice := 2 }

namespace Machine

variable {k k' : Machine} {a : Action}

/-- The task to which a step hands the processor. -/
def handsTo (k : Machine) : Action → Option Nat
  | .exec => k.next.bind fun s => match s with
    | .runSwap next _ => some next
    | _ => none
  | .tick => k.vars.preemptHandler.2.map Prod.snd
  | .call _ => none

/-- The task that has the processor is RUNNING. -/
def runsTask (k : Machine) : Bool :=
  match k.cpu with
  | .sched => false
  | .task i => (k.vars.tasks i).state = .running

/-- Which task got the processor last, how often it went to another one than before, and the ticks
that found the last one RUNNING since. -/
structure Handed where
  last : Option Nat
  switches : Nat
  ticks : Nat
  deriving DecidableEq

def Handed.start : Handed where
  last := none
  switches := 0
  ticks := 0

def noteHandover (k : Machine) (a : Action) (h : Handed) : Handed :=
  match k.handsTo a with
  | some n =>
    { last := some n
      switches := if h.last = some n then h.switches else h.switches + 1
      ticks := 0 }
  | none => if a = .tick ∧ k.runsTask then { h with ticks := h.ticks + 1 } else h

def handing : System (Machine × Handed) Action := system.watch noteHandover

theorem handsTo_of_code {s : Stmt} {rest : List Stmt} (hc : k.current.code = s :: rest)
    (hs : ∀ n b, s ≠ .runSwap n b) : k.handsTo .exec = none := by
  simp only [handsTo, next_eq hc, Option.bind_some]

theorem Wf.handsTo_task (wf : Wf k) {i : Nat} (hcpu : k.cpu = .task i) :
    k.handsTo .exec = none := by
  cases hc : k.current.code with
  | nil => simp [handsTo, next, hc]
  | cons s rest =>
    refine handsTo_of_code hc ?_
    rintro n b rfl
    cases hcpu.symm.trans (wf.sched_of_isRun hc rfl)

/-- A tick in a task goes on with it, or hands the processor to the task picked. -/
theorem Wf.tick_hands (wf : Wf k) {i : Nat} (hcpu : k.cpu = .task i) :
    (k.vars.preemptHandler.2 = none ∧ k.handsTo .tick = none ∧
      k.tick = { k with vars := k.vars.preemptHandler.1 }) ∨
    ∃ g next, k.vars.preemptHandler = (g, some (i, next)) ∧ k.handsTo .tick = some next ∧
      k.tick.cpu = .task next ∧ k.tick.vars.switchCount = g.switchCount ∧
      k.tick.vars.ticksSinceSwitch = g.ticksSinceSwitch := by
  have hidx := (wf.running i hcpu).2.1
  have frame := k.vars.preemptHandler_frame
  have hcurrent := k.vars.preemptHandler_current
  cases hp : k.vars.preemptHandler with
  | mk g switch =>
    rw [hp] at frame hcurrent
    cases switch with
    | none =>
      refine Or.inl ⟨rfl, by simp [handsTo, hp], ?_⟩
      rw [tick_of_stays (by rw [hp]), hp]
    | some pair =>
      obtain ⟨cur, next⟩ := pair
      obtain ⟨hcur, hlt, -, -⟩ := hcurrent
      obtain rfl : i = cur := Option.some.inj (hidx.symm.trans hcur)
      have hctx : (g.tasks next).context = .task next :=
        (frame.context next).trans (wf.contexts next hlt)
      refine Or.inr ⟨g, next, rfl, by simp [handsTo, hp], ?_, ?_, ?_⟩
      · unfold tick
        rw [hp]
        by_cases hnext : next = i
        · subst hnext
          simpa using hcpu
        · simpa [hnext] using hctx
      · rw [tick_global Globals.switchCount fun _ _ _ => rfl, hp]
      · rw [tick_global Globals.ticksSinceSwitch fun _ _ _ => rfl, hp]

/-! ## The switch counter -/

/-- Where a task is picked, another READY task has at least the priority of the one that ran last,
if that one could be picked again. -/
def PicksOther (k : Machine) : Action → Prop
  | .exec => k.next = some .runPick → ∀ c ∈ k.vars.currentIdx,
      (k.vars.tasks c).state = .ready → k.vars.HasRival c
  | .tick => k.vars.SwitchDue → ∀ c ∈ k.vars.currentIdx, (k.vars.ticked 0).HasRival c
  | .call _ => True

instance (k : Machine) (a : Action) : Decidable (PicksOther k a) :=
  match a with
  | .exec => inferInstanceAs (Decidable (_ → _))
  | .tick => inferInstanceAs (Decidable (_ → _))
  | .call _ => isTrue trivial

/-- The counter and the history in `scheduler_run`. From the pick on `g_current_idx` runs ahead of
the history, and between the increment and the `swapcontext` the counter does. -/
def SchedCounts (g : Globals) (h : Handed) : List Stmt → Prop
  | [] => g.switchCount = h.switches
  | .runCurrent n :: _ | .runRunning n :: _ | .runBlock n :: _ | .runCount n _ :: _ =>
    h.last ≠ some n ∧ g.switchCount = h.switches
  | .runSwap n _ :: _ => h.last ≠ some n ∧ g.switchCount = h.switches + 1
  | _ => h.last = g.currentIdx ∧ g.switchCount = h.switches

def Counts (k : Machine) (h : Handed) : Prop :=
  match k.cpu with
  | .sched => SchedCounts k.vars h (k.threads .sched).code
  | .task i => h.last = some i ∧ k.vars.switchCount = h.switches

section Counts

variable {h : Handed} {i : Nat}

theorem counts_sched (hcpu : k.cpu = .sched) :
    Counts k h ↔ SchedCounts k.vars h (k.threads .sched).code := by
  rw [Counts, hcpu]

theorem counts_task (hcpu : k.cpu = .task i) :
    Counts k h ↔ h.last = some i ∧ k.vars.switchCount = h.switches := by
  rw [Counts, hcpu]

theorem noteHandover_exec (hands : k.handsTo .exec = none) : k.noteHandover .exec h = h := by
  simp [noteHandover, hands]

theorem noteHandover_switches (hands : k.handsTo a = none) :
    (k.noteHandover a h).last = h.last ∧ (k.noteHandover a h).switches = h.switches := by
  unfold noteHandover
  rw [hands]
  dsimp only
  split <;> exact ⟨rfl, rfl⟩

/-- The step of a task that neither is a tick nor hands anything over. -/
theorem Counts.keep_task (hcounts : Counts k h) (hcpu : k.cpu = .task i) (cpu : k'.cpu = k.cpu)
    (count : k'.vars.switchCount = k.vars.switchCount) : Counts k' h := by
  rw [counts_task hcpu, ← count] at hcounts
  rwa [counts_task (cpu.trans hcpu)]

/-- A task gives the processor back to `scheduler_run`. -/
theorem Counts.release (hcounts : Counts k h) (wf : Wf k) (hcpu : k.cpu = .task i)
    {th : Thread} (hk : k'.threads = Function.update k.threads k.cpu th)
    (cpu : k'.cpu = k.vars.schedCtx) (idx : k'.vars.currentIdx = k.vars.currentIdx)
    (count : k'.vars.switchCount = k.vars.switchCount) : Counts k' h := by
  obtain ⟨-, hidx, hctx, b, n, hcode⟩ := wf.running i hcpu
  rw [counts_task hcpu, ← count] at hcounts
  rw [counts_sched (cpu.trans hctx), thread_other hk (sched_ne_cpu hcpu), hcode]
  exact ⟨hcounts.1.trans (idx.trans hidx).symm, hcounts.2⟩

/-- A forced switch goes to another task. -/
theorem forced_other {g : Globals} {next : Nat} (other : PicksOther k .tick)
    (hp : k.vars.preemptHandler = (g, some (i, next))) :
    next ≠ i ∧ g.switchCount = k.vars.switchCount + 1 := by
  have due := Globals.switchDue_of_switches hp
  obtain ⟨n, -, h'⟩ | ⟨cur, -, -, h'⟩ | ⟨cur, next', hidx, -, hpick, h'⟩ :=
    k.vars.preemptHandler_cases
  · cases hp.symm.trans h'
  · cases hp.symm.trans h'
  · cases hp.symm.trans h'
    refine ⟨?_, rfl⟩
    rintro rfl
    have rival := (other due next hidx).setState .ready
    exact Globals.pickNextReady_ne_of_hasRival (g := (k.vars.ticked 0).setState next .ready) hidx
      rival hpick

theorem Counts.step_task (hcounts : Counts k h) (wf : Wf k) (hcpu : k.cpu = .task i)
    (other : PicksOther k a) (hstep : Step k a k') : Counts k' (k.noteHandover a h) := by
  have exec := noteHandover_exec (h := h) (wf.handsTo_task hcpu)
  cases hstep with
  | handlerReturn | entryReturn | restoreMask | runBlock | yieldBlock =>
    rw [exec]
    exact hcounts.keep_task hcpu rfl rfl
  | @plain s rest succ g hh hc he =>
    rw [exec]
    have hlocal := wf.current_locals hcpu s (hc ▸ List.mem_cons_self)
    exact hcounts.keep_task hcpu rfl ((Stmt.exec_counters he).2 hlocal.1)
  | call => exact hcounts.keep_task hcpu rfl rfl
  | runSwap hh hc => cases hcpu.symm.trans (wf.sched_of_isRun hc rfl)
  | yieldSwap | exit =>
    rw [exec]
    exact hcounts.release wf hcpu rfl rfl rfl rfl
  | tick hm =>
    have ⟨last, count⟩ := (counts_task hcpu).mp hcounts
    obtain ⟨stays, hands, hk⟩ | ⟨g, next, hp, hands, cpu, switches, -⟩ := wf.tick_hands hcpu
    · have same := noteHandover_switches (h := h) hands
      have cpu : k.tick.cpu = .task i := by rw [hk, hcpu]
      rw [counts_task cpu, same.1, same.2, hk]
      exact ⟨last, (Globals.preemptHandler_switchCount stays).trans count⟩
    · obtain ⟨hne, hraised⟩ := forced_other other hp
      rw [counts_task cpu, switches, hraised, count]
      simp [noteHandover, hands, last, hne.symm]

theorem SchedCounts.counts {th : Thread} (hcounts : SchedCounts k'.vars h th.code)
    (hcpu : k.cpu = .sched) (hk : k'.threads = Function.update k.threads k.cpu th)
    (cpu : k'.cpu = k.cpu) : Counts k' h := by
  rwa [counts_sched (cpu.trans hcpu), thread_of_cpu hk hcpu]

theorem SchedCounts.of_same {g g' : Globals} {code : List Stmt} (hcounts : SchedCounts g h code)
    {h' : Handed} (last : h'.last = h.last) (switches : h'.switches = h.switches)
    (idx : g'.currentIdx = g.currentIdx) (count : g'.switchCount = g.switchCount) :
    SchedCounts g' h' code := by
  unfold SchedCounts at hcounts ⊢
  rw [last, switches, idx, count]
  exact hcounts

theorem Counts.step_sched (hcounts : Counts k h) (ctl : Controlled k)
    (spares : SparesDispatch k a) (other : PicksOther k a) (hcpu : k.cpu = .sched)
    (hstep : Step k a k') : Counts k' (k.noteHandover a h) := by
  have wf := ctl.wf
  rw [counts_sched hcpu] at hcounts
  have point {code : List Stmt} (hc : k.current.code = code) : SchedCounts k.vars h code :=
    code_of_cpu hcpu hc ▸ hcounts
  cases wf.schedStep hcpu hstep with
  | restoreMask hc =>
    have hpoint := point hc
    rw [noteHandover_exec (handsTo_of_code hc (by simp))]
    refine SchedCounts.counts ?_ hcpu rfl rfl
    exact hpoint
  | runBlock hc =>
    have hpoint := point hc
    rw [noteHandover_exec (handsTo_of_code hc (by simp))]
    refine SchedCounts.counts ?_ hcpu rfl rfl
    exact hpoint
  | @runSwap next b hc =>
    obtain ⟨hne, count⟩ := point hc
    have cpu := wf.contexts next (wf.point hcpu hc).1
    have hands : k.handsTo .exec = some next := by simp [handsTo, next_eq hc]
    refine (counts_task (i := next) cpu).mpr ?_
    simpa [noteHandover, hands, hne] using count
  | @plain s rest succ g hc he =>
    have hexec := wf.schedExec hcpu hc he
    rw [noteHandover_exec (handsTo_of_code hc fun n b hs => by subst hs; cases he)]
    generalize succ ++ rest = code at hexec
    have hpoint := point hc
    refine SchedCounts.counts ?_ hcpu rfl rfl
    dsimp only [advance_vars]
    cases hexec with
    | active | inactive | noneReady | canary => exact hpoint
    | @ready next hpick =>
      refine ⟨fun hlast => ?_, hpoint.2⟩
      have hidx := hpoint.1.symm.trans hlast
      have rival := other (next_eq hc) next hidx (Globals.pickNextReady_ready hpick).2
      exact Globals.pickNextReady_ne_of_hasRival hidx rival hpick
    | current | running => exact hpoint
    | count => exact ⟨hpoint.1, congrArg (· + 1) hpoint.2⟩
    | idle => exact hpoint.2
  | tick hm =>
    have stays := ctl.dispatching.tick_stays hcpu spares hm
    have hidx := k.vars.preemptHandler_current
    rw [stays] at hidx
    have hands : k.handsTo .tick = none := by simp [handsTo, stays]
    obtain ⟨last, switches⟩ := noteHandover_switches (h := h) hands
    rw [tick_of_stays stays]
    refine SchedCounts.counts ?_ hcpu k.threads_eq_update rfl
    exact (point rfl).of_same last switches hidx (Globals.preemptHandler_switchCount stays)

end Counts

/-- No tick forces a switch inside a dispatch, and every pick can find another task. -/
def SwitchesTasks (k : Machine) (a : Action) : Prop := SparesDispatch k a ∧ PicksOther k a

instance (k : Machine) (a : Action) : Decidable (SwitchesTasks k a) :=
  inferInstanceAs (Decidable (_ ∧ _))

theorem counts_of_reach {c : Config} {w : Machine × Handed}
    (h : handing.Reach (fun w a => SwitchesTasks w.1 a) (c.start, .start) w) :
    Counts w.1 w.2 := by
  have start : Counts c.start .start := ⟨rfl, rfl⟩
  refine h.invariant_with (I := fun w => Counts w.1 w.2) (J := fun w => Controlled w.1)
    (fun w h => controlled_of_reach (fun _ _ hok => hok.1) h.unwatch) start ?_
  intro w a w' ctl hcounts hok hstep
  obtain ⟨hstep, hnote⟩ := System.watch_step hstep
  rw [hnote]
  cases hcpu : w.1.cpu with
  | sched => exact hcounts.step_sched ctl hok.1 hok.2 hcpu (step_cases hstep)
  | task i => exact hcounts.step_task ctl.wf hcpu hok.2 (step_cases hstep)

/-- In every run in which each pick can find another task than the one that ran last, the counter is
the number of switches, except between its increment and the `swapcontext` it is for. -/
theorem switch_count_counts_switches (c : Config) {w : Machine × Handed}
    (h : handing.Reach (fun w a => SwitchesTasks w.1 a) (c.start, .start) w)
    (between : ∀ n b, w.1.next ≠ some (.runSwap n b)) : w.1.vars.switchCount = w.2.switches := by
  have hcounts := counts_of_reach h
  cases hcpu : w.1.cpu with
  | task i => exact ((counts_task hcpu).mp hcounts).2
  | sched =>
    rw [next, current, hcpu] at between
    have hpoint := (counts_sched hcpu).mp hcounts
    unfold SchedCounts at hpoint
    split at hpoint
    case h_1 => exact hpoint
    case h_6 n b _ hcode =>
      rw [hcode] at between
      exact absurd rfl (between n b)
    all_goals exact hpoint.2

theorem switch_count_counts_switches_ticked :
    ∃ w, handing.runGuarded (fun w a => SwitchesTasks w.1 a) (Config.twoTasks.start, .start)
        tickedRun = some w ∧ w.2.switches = 2 ∧ w.1.vars.switchCount = 2 := by
  obtain ⟨w, hrun, hswitches, hnext⟩ : ∃ w, handing.runGuarded
      (fun w a => SwitchesTasks w.1 a) (Config.twoTasks.start, .start) tickedRun = some w ∧
      w.2.switches = 2 ∧ w.1.next = some .runTest := System.exists_of_runGuarded (by decide +kernel)
  refine ⟨w, hrun, hswitches, ?_⟩
  rw [switch_count_counts_switches .twoTasks (System.reach_of_runGuarded hrun)
    (by simp [hnext]), hswitches]

/-- A task that is alone yields. -/
def lonelyRun : List Action := script 7 [(.call .yield, 15)]

/-- `scheduler_run` hands the processor back to the only task, and counts a switch. -/
theorem lonely_yield_counted :
    ∃ w, handing.Reach (fun _ _ => True) (Config.lonely.start, .start) w ∧ w.1.cpu = .task 0 ∧
      w.2.switches = 1 ∧ w.1.vars.switchCount = 2 := by
  obtain ⟨w, hrun, hcpu, hswitches, hcount⟩ : ∃ w, handing.runGuarded (fun _ _ => True)
      (Config.lonely.start, .start) lonelyRun = some w ∧ w.1.cpu = .task 0 ∧
      w.2.switches = 1 ∧ w.1.vars.switchCount = 2 := System.exists_of_runGuarded (by decide +kernel)
  exact ⟨w, System.reach_of_runGuarded hrun, hcpu, hswitches, hcount⟩

/-! ## Time slices -/

/-- `scheduler_run` dispatches with no tick counted towards the slice. -/
def StartsSlices (k : Machine) (a : Action) : Prop :=
  a = .exec → k.handsTo a ≠ none → k.vars.ticksSinceSwitch = 0

instance (k : Machine) (a : Action) : Decidable (StartsSlices k a) :=
  inferInstanceAs (Decidable (_ → _))

/-- The ticks counted towards the slice of the task that has the processor all found it RUNNING
since it got there. -/
def Sliced (k : Machine) (h : Handed) : Prop :=
  ∀ i, k.cpu = .task i → k.vars.ticksSinceSwitch ≤ h.ticks

section Sliced

variable {h : Handed} {i : Nat}

theorem Sliced.step_sched (ctl : Controlled k) (spares : SparesDispatch k a)
    (starts : StartsSlices k a) (hcpu : k.cpu = .sched) (hstep : Step k a k') :
    Sliced k' (k.noteHandover a h) := by
  intro i hcpu'
  cases ctl.wf.schedStep hcpu hstep with
  | restoreMask | runBlock | plain => cases hcpu.symm.trans hcpu'
  | runSwap hc =>
    have hzero := starts rfl (by simp [handsTo, next_eq hc])
    exact Nat.le_trans (Nat.le_of_eq hzero) (Nat.zero_le _)
  | tick hm =>
    rw [tick_of_stays (ctl.dispatching.tick_stays hcpu spares hm)] at hcpu'
    cases hcpu.symm.trans hcpu'

theorem Sliced.tick_task (hsliced : Sliced k h) (wf : Wf k) (hcpu : k.cpu = .task i) :
    Sliced k.tick (k.noteHandover .tick h) := by
  intro j hcpu'
  have hle := hsliced i hcpu
  obtain ⟨-, hands, hk⟩ | ⟨g, next, hp, -, -, -, since⟩ := wf.tick_hands hcpu
  · have hidx := (wf.running i hcpu).2.1
    rw [hk]
    obtain hsame | ⟨hmore, c, hc, hrun⟩ := k.vars.preemptHandler_ticksSinceSwitch
    · refine (hsame.trans hle).trans ?_
      unfold noteHandover
      rw [hands]
      dsimp only
      split
      · exact Nat.le_succ _
      · exact Nat.le_refl _
    · obtain rfl : i = c := Option.some.inj (hidx.symm.trans hc)
      have hruns : k.runsTask = true := by simp [runsTask, hcpu, hrun]
      have hnote : (k.noteHandover .tick h).ticks = h.ticks + 1 := by
        simp [noteHandover, hands, hruns]
      rw [hnote]
      exact hmore.trans (Nat.add_le_add_right hle 1)
  · rw [since, (Globals.preemptHandler_ends_slice hp).2]
    exact Nat.zero_le _

theorem Sliced.step_task (hsliced : Sliced k h) (wf : Wf k) (hcpu : k.cpu = .task i)
    (hstep : Step k a k') : Sliced k' (k.noteHandover a h) := by
  have hle := hsliced i hcpu
  have exec := noteHandover_exec (h := h) (wf.handsTo_task hcpu)
  cases hstep with
  | handlerReturn | entryReturn | restoreMask | runBlock | yieldBlock | yieldSwap | exit =>
    rw [exec]
    exact fun _ _ => hle
  | plain hh hc he =>
    rw [exec]
    exact fun _ _ => (Stmt.exec_counters he).1.trans_le hle
  | call => exact fun _ _ => hle
  | runSwap hh hc => cases hcpu.symm.trans (wf.sched_of_isRun hc rfl)
  | tick hm => exact hsliced.tick_task wf hcpu

/-- A dispatch that starts a slice, whatever was before. -/
theorem sliced_of_hands (ctl : Controlled k) (spares : SparesDispatch k a)
    (starts : StartsSlices k a) (hands : k.handsTo a = some i) (hstep : Step k a k') :
    Sliced k' (k.noteHandover a h) := by
  cases hcpu : k.cpu with
  | sched => exact .step_sched ctl spares starts hcpu hstep
  | task j =>
    cases hstep with
    | tick hm =>
      obtain ⟨-, hnone, -⟩ | ⟨g, next, hp, -, -, -, since⟩ := ctl.wf.tick_hands hcpu
      · cases hands.symm.trans hnone
      · intro _ _
        rw [since, (Globals.preemptHandler_ends_slice hp).2]
        exact Nat.zero_le _
    | call => cases hands
    | _ => cases hands.symm.trans (ctl.wf.handsTo_task hcpu)

/-- A forced switch out of a slice whose ticks were all seen. -/
theorem Sliced.whole (hsliced : Sliced k h) (ctl : Controlled k) (spares : SparesDispatch k .tick)
    (hstep : system.step k .tick = some k') {cur next : Nat}
    (forced : k.vars.preemptHandler.2 = some (cur, next)) :
    k.cpu = .task cur ∧ (k.vars.tasks cur).state = .running ∧
      k.vars.ticksPerSlice ≤ h.ticks + 1 := by
  have hp : k.vars.preemptHandler = (k.vars.preemptHandler.1, some (cur, next)) :=
    Prod.ext rfl forced
  obtain ⟨hidx, hrun, -⟩ := Globals.preemptHandler_switches hp
  cases hcpu : k.cpu with
  | sched =>
    cases step_cases hstep with
    | tick hm => cases (ctl.dispatching.tick_stays hcpu spares hm).symm.trans forced
  | task i =>
    obtain rfl : i = cur := Option.some.inj ((ctl.wf.running i hcpu).2.1.symm.trans hidx)
    have hends := (Globals.preemptHandler_ends_slice hp).1
    have hle := hsliced i hcpu
    exact ⟨rfl, hrun, by omega⟩

end Sliced

/-- No tick forces a switch inside a dispatch, and every dispatch starts a slice. -/
def DispatchesFresh (k : Machine) (a : Action) : Prop := SparesDispatch k a ∧ StartsSlices k a

instance (k : Machine) (a : Action) : Decidable (DispatchesFresh k a) :=
  inferInstanceAs (Decidable (_ ∧ _))

theorem handing_parameters {c : Config} {ok : Machine × Handed → Action → Prop}
    {w : Machine × Handed} (h : handing.Reach ok (c.start, .start) w) :
    w.1.vars.ticksPerSlice = c.ticksPerSlice := by
  refine h.invariant (I := fun w => w.1.vars.ticksPerSlice = c.ticksPerSlice) rfl ?_
  intro w a w' hslice _ hstep
  exact (step_parameters (step_cases (System.watch_step hstep).1)).2.trans hslice

theorem Sliced.of_reach {w w' : Machine × Handed} (ctl : Controlled w.1) (hsliced : Sliced w.1 w.2)
    (h : handing.Reach (fun w a => DispatchesFresh w.1 a) w w') :
    Controlled w'.1 ∧ Sliced w'.1 w'.2 := by
  refine h.invariant (I := fun w => Controlled w.1 ∧ Sliced w.1 w.2) ⟨ctl, hsliced⟩ ?_
  rintro w a w' ⟨ctl, hsliced⟩ hok hstep
  obtain ⟨hstep, hnote⟩ := System.watch_step hstep
  refine ⟨ctl.step hok.1 hstep, ?_⟩
  rw [hnote]
  cases hcpu : w.1.cpu with
  | sched => exact .step_sched ctl hok.1 hok.2 hcpu (step_cases hstep)
  | task i => exact hsliced.step_task ctl.wf hcpu (step_cases hstep)

/-- In every run in which `scheduler_run` dispatches with an empty slice, a tick takes the processor
from a task only if, with this one, a whole slice of ticks found the task RUNNING since it got the
processor. -/
theorem whole_slice_before_switch (c : Config) {w w' : Machine × Handed}
    (h : handing.Reach (fun w a => DispatchesFresh w.1 a) (c.start, .start) w)
    (hok : DispatchesFresh w.1 .tick) (hstep : handing.step w .tick = some w') {cur next : Nat}
    (forced : w.1.vars.preemptHandler.2 = some (cur, next)) :
    w.1.cpu = .task cur ∧ (w.1.vars.tasks cur).state = .running ∧
      c.ticksPerSlice ≤ w.2.ticks + 1 := by
  have start : Sliced c.start .start := fun i hi => by cases hi
  obtain ⟨ctl, hsliced⟩ := Sliced.of_reach (w := (c.start, .start))
    ⟨wf_start c, stacked_start c, dispatching_start c⟩ start h
  rw [← handing_parameters h]
  exact hsliced.whole ctl hok.1 (System.watch_step hstep).1 forced

/-- The first task is RUNNING at two ticks, the second of which takes the processor from it. -/
def sliceRun : List Action := script 7 [(.tick, 0)]

theorem whole_slice_before_switch_second_tick :
    ∃ w w', handing.runGuarded (fun w a => DispatchesFresh w.1 a)
        (Config.slicesOfTwo.start, .start) sliceRun = some w ∧
      w.1.vars.preemptHandler.2 = some (0, 1) ∧ handing.step w .tick = some w' ∧
      w.1.cpu = .task 0 ∧ (w.1.vars.tasks 0).state = .running ∧
      Config.slicesOfTwo.ticksPerSlice ≤ w.2.ticks + 1 := by
  obtain ⟨w, hrun, hforced, hok, hsome⟩ : ∃ w, handing.runGuarded
      (fun w a => DispatchesFresh w.1 a) (Config.slicesOfTwo.start, .start) sliceRun = some w ∧
      w.1.vars.preemptHandler.2 = some (0, 1) ∧ DispatchesFresh w.1 .tick ∧
      (handing.step w .tick).isSome := System.exists_of_runGuarded (by decide +kernel)
  obtain ⟨w', hstep⟩ := Option.isSome_iff_exists.mp hsome
  exact ⟨w, w', hrun, hforced, hstep, whole_slice_before_switch .slicesOfTwo
    (System.reach_of_runGuarded hrun) hok hstep hforced⟩

/-- Only the dispatch of the task that is switched out has to start a slice: what was counted before
it does not matter, whatever the run was like. -/
theorem whole_slice_since_dispatch (c : Config) {w₀ w₁ w w' : Machine × Handed} {i : Nat}
    (before : handing.Reach (fun w a => SparesDispatch w.1 a) (c.start, .start) w₀)
    (fresh : DispatchesFresh w₀.1 a) (hands : w₀.1.handsTo a = some i)
    (step : handing.step w₀ a = some w₁)
    (turn : handing.Reach (fun w a => SparesDispatch w.1 a ∧ w.1.handsTo a = none) w₁ w)
    (spares : SparesDispatch w.1 .tick) (hstep : handing.step w .tick = some w') {cur next : Nat}
    (forced : w.1.vars.preemptHandler.2 = some (cur, next)) :
    c.ticksPerSlice ≤ w.2.ticks + 1 := by
  have ctl₀ : Controlled w₀.1 := controlled_of_reach (fun _ _ hok => hok) before.unwatch
  obtain ⟨hmove, hnote⟩ := System.watch_step step
  have hsliced : Sliced w₁.1 w₁.2 :=
    hnote ▸ sliced_of_hands ctl₀ fresh.1 fresh.2 hands (step_cases hmove)
  obtain ⟨ctl, hsliced⟩ := Sliced.of_reach (ctl₀.step fresh.1 hmove) hsliced
    (turn.mono fun w a hok => ⟨hok.1, fun _ hne => absurd hok.2 hne⟩)
  have run : handing.Reach (fun w a => SparesDispatch w.1 a) (c.start, .start) w :=
    (before.tail fresh.1 step).trans (turn.mono fun _ _ hok => hok.1)
  rw [← handing_parameters run]
  exact (hsliced.whole ctl spares (System.watch_step hstep).1 forced).2.2

/-- The first task is RUNNING at one tick and yields. -/
def halfSliceRun : List Action := script 7 [(.tick, 0), (.call .yield, 15)]

/-- The second task loses the processor at the first tick it sees: the tick of the first task is
still counted. -/
theorem half_slice_cut :
    ∃ w w', handing.Reach (fun w a => SparesDispatch w.1 a) (Config.slicesOfTwo.start, .start) w ∧
      handing.step w .tick = some w' ∧ w.1.cpu = .task 1 ∧ w'.1.cpu = .task 0 ∧
      w.1.vars.preemptHandler.2 = some (1, 0) ∧ w.2.last = some 1 ∧
      w.2.ticks + 1 < Config.slicesOfTwo.ticksPerSlice := by
  obtain ⟨w, hrun, hcpu, hforced, hlast, hticks, hsome⟩ : ∃ w, handing.runGuarded
      (fun w a => SparesDispatch w.1 a) (Config.slicesOfTwo.start, .start) halfSliceRun = some w ∧
      w.1.cpu = .task 1 ∧ w.1.vars.preemptHandler.2 = some (1, 0) ∧ w.2.last = some 1 ∧
      w.2.ticks + 1 < Config.slicesOfTwo.ticksPerSlice ∧
      (handing.step w .tick).any (fun w' => w'.1.cpu = .task 0) :=
    System.exists_of_runGuarded (by decide +kernel)
  obtain ⟨w', hstep, hcpu'⟩ := (Option.any_eq_true _ _).mp hsome
  exact ⟨w, w', System.reach_of_runGuarded hrun, hstep, hcpu, of_decide_eq_true hcpu', hforced,
    hlast, hticks⟩

end Machine

end RtosXrce.Kernel
