import Mathlib.Algebra.BigOperators.Group.Finset.Piecewise
import Mathlib.Algebra.Order.BigOperators.Group.Finset
import RtosXrce.Kernel.RoundRobin
import RtosXrce.Kernel.WaitLists

/-!
# The task state machine

Dispatch, yield, sleep, the synchronisation objects, termination and the timer all write task
states. In the runs whose ticks land between these events, at most one task is RUNNING and
`g_current_idx` names it, a TERMINATED task stays so, a BLOCKED task becomes READY through its
deadline or through a wake loop that finds it in its waiter array, and the tasks together have not
run for more ticks than there were.
-/

namespace RtosXrce.Kernel

open Library

namespace Globals

/-- A RUNNING task is the one that `g_current_idx` names. -/
def OneRunning (g : Globals) : Prop :=
  ∀ i < g.numTasks, (g.tasks i).state = .running → g.currentIdx = some i

/-- The ticks that the registered tasks have been RUNNING for. -/
def ticksRun (g : Globals) : Nat := ∑ i ∈ Finset.range g.numTasks, (g.tasks i).ticksRun

theorem ticksRun_grown {g g' : Globals} (grows : g.numTasks ≤ g'.numTasks)
    (old : ∀ i < g.numTasks, (g'.tasks i).ticksRun = (g.tasks i).ticksRun)
    (new : ∀ i, g.numTasks ≤ i → i < g'.numTasks → (g'.tasks i).ticksRun = 0) :
    g'.ticksRun = g.ticksRun := by
  have hsub : Finset.range g.numTasks ⊆ Finset.range g'.numTasks :=
    Finset.range_subset_range.mpr grows
  rw [ticksRun, ← Finset.sum_subset hsub fun i hi hi' =>
    new i (by simpa using hi') (Finset.mem_range.mp hi)]
  exact Finset.sum_congr rfl fun i hi => old i (Finset.mem_range.mp hi)

theorem ticked_ticksRun (g : Globals) (n i : Nat) :
    ((g.ticked n).tasks i).ticksRun ≤
      (g.tasks i).ticksRun + if (g.tasks i).state = .running then 1 else 0 := by
  simp only [ticked, updateTickBookkeeping]
  split
  case isFalse => omega
  case isTrue =>
    unfold tickTask
    split
    case h_1 h => simp [h]
    case h_3 => split <;> simp
    all_goals simp

/-- A tick is counted for one task at most. -/
theorem OneRunning.ticksRun_ticked {g : Globals} (one : g.OneRunning) :
    ∑ i ∈ Finset.range g.numTasks, ((g.ticked 0).tasks i).ticksRun ≤ g.ticksRun + 1 := by
  have hcard : ((Finset.range g.numTasks).filter
      fun i => (g.tasks i).state = .running).card ≤ 1 := by
    refine Finset.card_le_one.mpr fun i hi j hj => ?_
    simp only [Finset.mem_filter, Finset.mem_range] at hi hj
    exact Option.some.inj ((one i hi.1 hi.2).symm.trans (one j hj.1 hj.2))
  calc ∑ i ∈ Finset.range g.numTasks, ((g.ticked 0).tasks i).ticksRun
      ≤ ∑ i ∈ Finset.range g.numTasks,
          ((g.tasks i).ticksRun + if (g.tasks i).state = .running then 1 else 0) :=
        Finset.sum_le_sum fun i _ => g.ticked_ticksRun 0 i
    _ = g.ticksRun + ((Finset.range g.numTasks).filter
          fun i => (g.tasks i).state = .running).card := by
        rw [Finset.sum_add_distrib, Finset.card_filter]
        rfl
    _ ≤ g.ticksRun + 1 := by omega

end Globals

namespace Stmt

variable {g g' : Globals} {s : Stmt} {succ : List Stmt}

theorem exec_ticks (h : s.exec g = some (g', succ)) :
    g'.tickCount = g.tickCount ∧
      ∀ i < g.numTasks, (g'.tasks i).ticksRun = (g.tasks i).ticksRun := by
  cases exec_stores h with
  | spawn p =>
    refine ⟨?_, fun i hi => by rw [Globals.taskSpawn_tasks_of_lt _ _ hi]⟩
    unfold Globals.taskSpawn
    split <;> rfl
  | state | overflow | sleepWake | lockBoost | unlockRestore =>
    exact ⟨rfl, fun i _ => Globals.modifyTask_field Task.ticksRun rfl i⟩
  | wakeClear o => cases o <;> exact ⟨rfl, fun _ _ => rfl⟩
  | _ => exact ⟨rfl, fun _ _ => rfl⟩

/-- Only the end of its trampoline makes a task TERMINATED. -/
theorem exec_terminated (h : s.exec g = some (g', succ)) {j : Nat}
    (hj : (g'.tasks j).state = .terminated) :
    (g.tasks j).state = .terminated ∨ s = .terminate j := by
  obtain same | sets | ⟨-, -, ready⟩ := exec_sets h j
  · exact Or.inl (same.symm.trans hj)
  · rw [hj] at sets
    exact Or.inr (eq_of_sets_terminated sets)
  · cases hj.symm.trans ready

end Stmt

/-- What a step that runs no plain statement and no handler leaves alone. -/
structure Globals.Still (g g' : Globals) : Prop where
  numTasks : g'.numTasks = g.numTasks
  currentIdx : g'.currentIdx = g.currentIdx
  tickCount : g'.tickCount = g.tickCount
  state : ∀ i, (g'.tasks i).state = (g.tasks i).state
  ticksRun : ∀ i, (g'.tasks i).ticksRun = (g.tasks i).ticksRun

theorem Globals.still_modifyTask (g : Globals) {c : Nat} {f : Task → Task}
    (state : (f (g.tasks c)).state = (g.tasks c).state)
    (ticksRun : (f (g.tasks c)).ticksRun = (g.tasks c).ticksRun) : g.Still (g.modifyTask c f) :=
  ⟨rfl, rfl, rfl, modifyTask_field Task.state state, modifyTask_field Task.ticksRun ticksRun⟩

namespace Machine

variable {k k' : Machine} {act : Action}

theorem step_still (h : Step k act k') :
    (act = .exec ∧ ∃ s rest succ, k.current.code = s :: rest ∧
      s.exec k.vars = some (k'.vars, succ)) ∨
    (act = .tick ∧ k.current.masked = false ∧ k' = k.tick) ∨ k.vars.Still k'.vars := by
  have same : k.vars.Still k.vars := ⟨rfl, rfl, rfl, fun _ => rfl, fun _ => rfl⟩
  cases h with
  | handlerReturn =>
    refine Or.inr (Or.inr ?_)
    rw [handlerReturn_vars]
    exact k.vars.still_modifyTask rfl rfl
  | yieldSwap =>
    refine Or.inr (Or.inr ?_)
    rw [swapToSched_vars]
    exact k.vars.still_modifyTask rfl rfl
  | entryReturn | restoreMask | runBlock | yieldBlock | exit | call =>
    exact Or.inr (Or.inr same)
  | runSwap => exact Or.inr (Or.inr { same with })
  | plain hh hc he => exact Or.inl ⟨rfl, _, _, _, hc, he⟩
  | tick hm => exact Or.inr (Or.inl ⟨rfl, hm, rfl⟩)

/-- The tick does not land inside a dispatch, a wait or a wake loop. -/
def LandsBetween (k : Machine) (a : Action) : Prop :=
  a = .tick → ∀ s ∈ k.next, s.dispatches = false ∧ s.entersWait = false ∧ s.wakes = false

instance (k : Machine) (a : Action) : Decidable (LandsBetween k a) :=
  inferInstanceAs (Decidable (_ → _))

theorem LandsBetween.spares (h : LandsBetween k act) :
    SparesDispatch k act ∧ SparesWait k act ∧ SparesRouse k act := by
  refine ⟨fun ha s hs hd => ?_, fun ha _ s hs => (h ha s hs).2.1, fun ha _ s hs => (h ha s hs).2.2⟩
  cases (h ha s hs).1.symm.trans hd

theorem tick_tickCount (k : Machine) : k.tick.vars.tickCount = k.vars.tickCount + 1 := by
  rw [tick_global Globals.tickCount fun _ _ _ => rfl]
  obtain ⟨n, -, h⟩ | ⟨cur, -, -, h⟩ | ⟨cur, next, -, -, -, h⟩ := k.vars.preemptHandler_cases <;>
    rw [h] <;> rfl

theorem tick_terminated (k : Machine) {i : Nat} :
    (k.tick.vars.tasks i).state = .terminated ↔ (k.vars.tasks i).state = .terminated := by
  have ticked : ((k.vars.ticked 0).tasks i).state = .terminated ↔
      (k.vars.tasks i).state = .terminated := by
    obtain hsame | ⟨hb, -, hready⟩ := k.vars.ticked_state 0 i
    · rw [hsame]
    · simp [hb, hready]
  rw [← ticked]
  obtain ⟨hstate, -⟩ | ⟨cur, next, -, hcur, hpick, -, -, hstate⟩ := k.tick_state i
  · rw [hstate]
  · rw [hstate]
    split
    case isTrue hin =>
      subst hin
      have hready := (Globals.pickNextReady_ready hpick).2
      by_cases hic : i = cur
      · simp [hic, Globals.ticked_running.mpr hcur]
      · rw [Globals.setState, Globals.modifyTask_of_ne hic] at hready
        simp [hready]
    case isFalse =>
      split
      case isTrue hic => simp [hic, Globals.ticked_running.mpr hcur]
      case isFalse => rfl

/-- The state machine's invariants. -/
structure States (k : Machine) : Prop where
  one : k.vars.OneRunning
  ended : ∀ i, (k.vars.tasks i).state = .terminated →
    (k.threads (.task i)).code = [.exit] ∨ (k.threads (.task i)).code = []
  ticks : k.vars.ticksRun ≤ k.vars.tickCount

theorem states_start (c : Config) : States c.start where
  one i _ h := by cases h
  ended i h := by cases h
  ticks := by
    refine Nat.le_of_eq (Finset.sum_eq_zero fun i _ => ?_)
    rfl

theorem States.still_one (h : States k) (still : k.vars.Still k'.vars) : k'.vars.OneRunning := by
  intro i hi hrun
  rw [still.numTasks] at hi
  rw [still.state] at hrun
  exact still.currentIdx.trans (h.one i hi hrun)

theorem States.still_ticks (h : States k) (still : k.vars.Still k'.vars) :
    k'.vars.ticksRun ≤ k'.vars.tickCount := by
  rw [Globals.ticksRun_grown (Nat.le_of_eq still.numTasks.symm) (fun i _ => still.ticksRun i)
    fun i hi hi' => absurd hi' (by rw [still.numTasks]; omega), still.tickCount]
  exact h.ticks

theorem States.tick_one (h : States k) : k.tick.vars.OneRunning := by
  intro i hi hrun
  rw [k.frame_tick.numTasks] at hi
  obtain ⟨hstate, hidx⟩ | ⟨cur, next, hidx, hcur, -, -, hnext, hstate⟩ := k.tick_state i
  · rw [hstate] at hrun
    exact hidx.trans (h.one i hi (Globals.ticked_running.mp hrun))
  · rw [hstate] at hrun
    rw [hnext]
    split at hrun
    case isTrue hin => rw [hin]
    case isFalse =>
      split at hrun
      case isTrue => cases hrun
      case isFalse hic =>
        have := (h.one i hi (Globals.ticked_running.mp hrun)).symm.trans hidx
        exact absurd (Option.some.inj this) hic

theorem States.tick_ticks (h : States k) : k.tick.vars.ticksRun ≤ k.tick.vars.tickCount := by
  have count := k.tick_tickCount
  have run : k.tick.vars.ticksRun =
      ∑ i ∈ Finset.range k.vars.numTasks, ((k.vars.ticked 0).tasks i).ticksRun := by
    rw [Globals.ticksRun, k.frame_tick.numTasks]
    exact Finset.sum_congr rfl fun i _ =>
      tick_field Task.ticksRun (fun _ _ => rfl) (fun _ _ => rfl) (fun _ _ => rfl) k i
  have := h.one.ticksRun_ticked
  have := h.ticks
  omega

theorem Controlled.point (ctl : Controlled k) {s : Stmt} {rest : List Stmt}
    (hc : k.current.code = s :: rest) (hs : s.isRun = true) :
    SchedPoint k.vars (s :: rest) ∧ DispatchPoint k.vars k.current.masked (s :: rest) := by
  have hcpu := ctl.wf.sched_of_isRun hc hs
  refine ⟨ctl.wf.point hcpu hc, ?_⟩
  have hpoint := ctl.dispatching.sched hcpu
  rw [← hcpu, show (k.threads k.cpu).code = s :: rest from hc] at hpoint
  exact hpoint

theorem States.plain_one (h : States k) (ctl : Controlled k) {s : Stmt} {rest succ : List Stmt}
    {g : Globals} (hc : k.current.code = s :: rest) (he : s.exec k.vars = some (g, succ)) :
    g.OneRunning := by
  intro i hi hrun
  have idle : k.vars.Idle → (k.vars.tasks i).state = .running → i < k.vars.numTasks → False :=
    fun idle hrun hlt => idle i (h.one i hlt hrun) hrun
  obtain hrun | rfl := Stmt.exec_running he hrun
  case inr =>
    obtain ⟨hpoint, -⟩ := ctl.point hc rfl
    obtain rfl := hpoint.alone rfl nofun
    cases he
    exact hpoint.2
  case inl =>
    by_cases hlt : i < k.vars.numTasks
    case neg =>
      obtain ⟨p, hp⟩ := Stmt.exec_spawned he (Nat.not_lt.mp hlt) hi
      rename_i hrun'
      rw [hp] at hrun'
      cases hrun'
    case pos =>
      obtain hsame | ⟨n, rfl⟩ | rfl := Stmt.exec_currentIdx he
      · exact hsame.trans (h.one i hlt hrun)
      · exact (idle (ctl.point hc rfl).2.2 hrun hlt).elim
      · exact (idle (ctl.point hc rfl).2 hrun hlt).elim

theorem States.plain_ticks (h : States k) (ctl : Controlled k) {s : Stmt} {succ : List Stmt}
    {g : Globals} (he : s.exec k.vars = some (g, succ)) : g.ticksRun ≤ g.tickCount := by
  obtain ⟨hcount, hrun⟩ := Stmt.exec_ticks he
  rw [hcount, Globals.ticksRun_grown (Stmt.exec_table he ctl.wf.few ctl.wf.contexts).1 hrun]
  · exact h.ticks
  · intro i hold hnew
    obtain ⟨p, hp⟩ := Stmt.exec_spawned he hold hnew
    rw [hp]
    rfl

/-- A TERMINATED task is at the end of its trampoline. -/
theorem States.step_ended (h : States k) (ctl : Controlled k)
    (hstep : system.step k act = some k') (i : Nat)
    (ended : (k'.vars.tasks i).state = .terminated) :
    (k'.threads (.task i)).code = [.exit] ∨ (k'.threads (.task i)).code = [] := by
  obtain ⟨th, hth, moves⟩ := step_moves hstep
  have old : (k.vars.tasks i).state = .terminated → k.cpu = .task i →
      k.current.code = [.exit] ∨ k.current.code = [] := fun ht hcpu => by
    rw [current, hcpu]
    exact h.ended i ht
  -- a step of the task itself, or one of another execution
  have moved : ((k.vars.tasks i).state = .terminated ∨ k.cpu = .task i) →
      (k.cpu = .task i → th.code = [.exit] ∨ th.code = []) →
      (k'.threads (.task i)).code = [.exit] ∨ (k'.threads (.task i)).code = [] := by
    intro hold hself
    by_cases hcpu : k.cpu = .task i
    · rw [thread_of_cpu hth hcpu]
      exact hself hcpu
    · rw [thread_other hth (Ne.symm hcpu)]
      exact h.ended i (hold.resolve_right hcpu)
  cases moves with
  | resume _ _ code _ state =>
    rw [state] at ended
    refine moved (Or.inl ended) fun hcpu => ?_
    rw [code]
    exact old ended hcpu
  | tick _ ticked code =>
    have ht : (k.vars.tasks i).state = .terminated := k.tick_terminated.mp (ticked ▸ ended)
    refine moved (Or.inl ht) fun hcpu => ?_
    rw [code]
    exact old ht hcpu
  | control _ hc hs _ code _ state =>
    rw [state] at ended
    refine moved (Or.inl ended) fun hcpu => ?_
    obtain hexit | hnil := old ended hcpu
    · cases hc.symm.trans hexit
      cases hs
    · cases hc.symm.trans hnil
  | exit _ hc _ code _ state =>
    rw [state] at ended
    exact moved (Or.inl ended) fun _ => Or.inr code
  | call _ _ hc _ _ state =>
    rw [state] at ended
    refine moved (Or.inl ended) fun hcpu => ?_
    obtain hexit | hnil := old ended hcpu
    · cases hc.symm.trans hexit
    · cases hc.symm.trans hnil
  | plain _ hc he _ code =>
    obtain ht | rfl := Stmt.exec_terminated he ended
    · refine moved (Or.inl ht) fun hcpu => ?_
      obtain hexit | hnil := old ht hcpu
      · cases hc.symm.trans hexit
        cases he
      · cases hc.symm.trans hnil
    · have hcpu := ctl.wf.exec_of_cur (next_eq hc) (c := i) rfl
      have hends := ctl.dispatching.ends i
      rw [code_of_cpu hcpu hc] at hends
      refine moved (Or.inr hcpu) fun _ => ?_
      obtain ⟨hs, -⟩ | ⟨-, rfl⟩ := hends.of_ends rfl
      · cases hs
      · obtain ⟨-, rfl⟩ := Prod.mk.inj (Option.some.inj he)
        exact Or.inl code

theorem States.step (h : States k) (ctl : Controlled k) (hstep : system.step k act = some k') :
    States k' := by
  have ended := h.step_ended ctl hstep
  obtain ⟨-, s, rest, succ, hc, he⟩ | ⟨-, -, rfl⟩ | still := step_still (step_cases hstep)
  · exact ⟨h.plain_one ctl hc he, ended, h.plain_ticks ctl he⟩
  · exact ⟨h.tick_one, ended, h.tick_ticks⟩
  · exact ⟨h.still_one still, ended, h.still_ticks still⟩

theorem States.stays_terminated (h : States k) (ctl : Controlled k) (enl : Enlisted k)
    (hstep : system.step k act = some k') {i : Nat} (hi : i < k.vars.numTasks)
    (ended : (k.vars.tasks i).state = .terminated) : (k'.vars.tasks i).state = .terminated := by
  obtain ⟨-, s, rest, succ, hc, he⟩ | ⟨-, -, rfl⟩ | still := step_still (step_cases hstep)
  · have hcode := h.ended i ended
    have hcpu : k.cpu ≠ .task i := by
      intro hcpu
      rw [code_of_cpu hcpu hc] at hcode
      obtain hexit | hnil := hcode
      · obtain ⟨rfl, -⟩ := List.cons.inj hexit
        cases he
      · cases hnil
    refine (ctl.state_other hc he hi hcpu (by rw [ended]; exact nofun) ?_).trans ended
    rintro o j rfl hslot
    obtain ⟨s, w, rest', hwait, -⟩ := enl.found hc hslot
    rw [hwait] at hcode
    simp at hcode
  · exact k.tick_terminated.mpr ended
  · exact (still.state i).trans ended

/-- A tick that has reached the task's deadline, or the store of READY in a wake loop of an object
in whose waiter array it is. -/
def Wakes (k : Machine) (act : Action) (i : Nat) : Prop :=
  act = .tick ∧ k.vars.Due i ∨
    act = .exec ∧ ∃ o j, k.next = some (.wakeReady o j) ∧ i ∈ k.vars.waiters o

theorem leaves_blocked (ctl : Controlled k) (att : Attended k) (enl : Enlisted k)
    (hstep : system.step k act = some k') {i : Nat} (hi : i < k.vars.numTasks)
    (hb : (k.vars.tasks i).state = .blocked) :
    (k'.vars.tasks i).state = .blocked ∨ k.Wakes act i ∧
      ((k'.vars.tasks i).state = .ready ∨
        k.dispatched act = some i ∧ (k'.vars.tasks i).state = .running) := by
  obtain ⟨rfl, s, rest, succ, hc, he⟩ | ⟨rfl, -, rfl⟩ | still := step_still (step_cases hstep)
  · by_cases hcpu : k.cpu = .task i
    · obtain ⟨s', hs', hyield⟩ := att.yields hcpu hb
      obtain rfl := eq_of_next hc hs'
      have hidx : k.vars.currentIdx ≠ none := by
        rw [(ctl.wf.running i hcpu).2.1]
        exact nofun
      obtain ⟨-, hsame | ⟨c, rfl, -⟩⟩ := Stmt.exec_yields he hyield hidx
      · exact Or.inl (hsame ▸ hb)
      · obtain rfl := Exec.task.inj (hcpu.symm.trans (ctl.wf.exec_of_cur (next_eq hc) rfl))
        exact absurd hb (enl.awake i (hcpu ▸ next_eq hc))
    · by_cases wake : ∀ o j, s = .wakeReady o j → (k.vars.waiters o).slots j ≠ some i
      · exact Or.inl (ctl.stays_blocked hc he hi hcpu hb wake)
      · push Not at wake
        obtain ⟨o, j, rfl, hslot⟩ := wake
        obtain ⟨t, ht, hout⟩ := Option.map_eq_some_iff.mp he
        obtain rfl := Option.some.inj (hslot.symm.trans ht)
        have wakes : k.Wakes .exec i :=
          Or.inr ⟨rfl, o, j, next_eq hc, j, enl.index o j (next_eq hc), hslot⟩
        refine Or.inr ⟨wakes, Or.inl ?_⟩
        rw [← (Prod.mk.inj hout).1]
        simp
  · obtain hsame | ⟨-, due, hready⟩ := k.vars.ticked_state 0 i
    · exact Or.inl (tick_blocked (hsame.trans hb))
    · refine Or.inr ⟨Or.inl ⟨rfl, due⟩, ?_⟩
      obtain ⟨hstate, -⟩ | ⟨cur, next, -, -, -, hswitch, -, hstate⟩ := k.tick_state i
      · exact Or.inl (hstate.trans hready)
      · split at hstate
        case isTrue hin => exact Or.inr ⟨by simp [dispatched, hswitch, hin], hstate⟩
        case isFalse =>
          split at hstate
          case isTrue => exact Or.inl hstate
          case isFalse => exact Or.inl (hstate.trans hready)
  · exact Or.inl ((still.state i).trans hb)

/-- The task state machine, in every state of a run whose ticks land between its events, and over
every step from there. A sleeper that the handler has made READY it may dispatch at once. -/
theorem task_state_machine (c : Config) {k : Machine} (h : system.Reach LandsBetween c.start k) :
    (∀ i < k.vars.numTasks, (k.vars.tasks i).state = .running → k.vars.currentIdx = some i) ∧
    ∑ i ∈ Finset.range k.vars.numTasks, (k.vars.tasks i).ticksRun ≤ k.vars.tickCount ∧
    ∀ act k', LandsBetween k act → system.step k act = some k' → ∀ i < k.vars.numTasks,
      ((k.vars.tasks i).state = .terminated → (k'.vars.tasks i).state = .terminated) ∧
      ((k.vars.tasks i).state = .blocked →
        (k'.vars.tasks i).state = .blocked ∨ k.Wakes act i ∧
          ((k'.vars.tasks i).state = .ready ∨
            k.dispatched act = some i ∧ (k'.vars.tasks i).state = .running)) := by
  have dispatch := fun k a (hok : LandsBetween k a) => hok.spares.1
  have ctl := controlled_of_reach dispatch h
  have att : Attended k :=
    attended_of_reach (fun _ h => (controlled_of_reach dispatch h).wf)
      (fun _ _ hok => hok.spares.2.imp_right SparesRouse.sparesWake) h
  have enl : Enlisted k := enlisted_of_reach (fun _ _ hok => hok.spares) h
  have states : States k :=
    h.invariant_with (fun _ => controlled_of_reach dispatch) (states_start c)
      fun _ _ _ ctl states _ hstep => states.step ctl hstep
  refine ⟨states.one, states.ticks, fun act k' _ hstep i hi => ⟨?_, ?_⟩⟩
  · exact states.stays_terminated ctl enl hstep hi
  · exact leaves_blocked ctl att enl hstep hi

/-- The first task sleeps for two ticks, the second runs on; the second tick wakes the first and
switches to it, the third switches back, and the second task ends. -/
def sleepRun : List Action :=
  script 7 [(.call (.sleep 2), 18), (.tick, 1), (.tick, 1), (.tick, 3)]

theorem task_state_machine_sleep :
    ∃ k, system.runGuarded LandsBetween Config.twoTasks.start sleepRun = some k ∧
      k.vars.numTasks = 2 ∧ (k.vars.tasks 1).state = .terminated ∧
      ∑ i ∈ Finset.range k.vars.numTasks, (k.vars.tasks i).ticksRun ≤ 3 ∧
      ∀ act k', LandsBetween k act → system.step k act = some k' →
        (k'.vars.tasks 1).state = .terminated := by
  obtain ⟨k, hrun, hnum, hended, hcount⟩ : ∃ k, system.runGuarded LandsBetween
      Config.twoTasks.start sleepRun = some k ∧ k.vars.numTasks = 2 ∧
      (k.vars.tasks 1).state = .terminated ∧ k.vars.tickCount = 3 :=
    System.exists_of_runGuarded (by decide +kernel)
  obtain ⟨-, hsum, hstep⟩ := task_state_machine .twoTasks (System.reach_of_runGuarded hrun)
  refine ⟨k, hrun, hnum, hended, hcount ▸ hsum, fun act k' hlands h => ?_⟩
  exact (hstep act k' hlands h 1 (by omega)).1 hended

end Machine

end RtosXrce.Kernel
