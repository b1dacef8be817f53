import RtosXrce.Kernel.Control

/-!
# Saved contexts belong to their owner

`scheduler_run`, `task_yield` and `preempt_handler` each save a context and decide from
`g_current_idx` and the task's state whose context it is. `scheduler_run` stores RUNNING before it
blocks SIGALRM; a tick between the two that forces a switch stores the scheduler's context in the
task. It is the only such point: wherever else the timer may interrupt `scheduler_run`, the task
that `g_current_idx` names is not RUNNING.
-/

namespace RtosXrce.Kernel

open Library

namespace Globals

variable {g g' : Globals}

/-- The task that `g_current_idx` names, if any, is not RUNNING. -/
def Idle (g : Globals) : Prop := ∀ c ∈ g.currentIdx, (g.tasks c).state ≠ .running

/-- A tick would force a switch. -/
def SwitchDue (g : Globals) : Prop :=
  g.preemptEnabled = true ∧ g.ticksPerSlice ≤ g.ticksSinceSwitch + 1 ∧
    ∃ c ∈ g.currentIdx, (g.tasks c).state = .running ∧ (g.tasks c).pendingPreemptions ≤ 0

instance (g : Globals) : Decidable g.SwitchDue := inferInstanceAs (Decidable (_ ∧ _ ∧ _))

/-- The next tick wakes the task. -/
def Due (g : Globals) (i : Nat) : Prop :=
  (g.tasks i).wakeTick ≠ 0 ∧ (g.tasks i).wakeTick ≤ g.tickCount + 1

instance (g : Globals) (i : Nat) : Decidable (g.Due i) := inferInstanceAs (Decidable (_ ∧ _))

theorem ticked_state (g : Globals) (n i : Nat) :
    ((g.ticked n).tasks i).state = (g.tasks i).state ∨
      (g.tasks i).state = .blocked ∧ g.Due i ∧ ((g.ticked n).tasks i).state = .ready := by
  simp only [ticked, updateTickBookkeeping]
  split
  case isFalse => exact Or.inl rfl
  case isTrue =>
    unfold tickTask
    split
    case h_1 h => exact Or.inl rfl
    case h_2 h => exact Or.inl rfl
    case h_3 h =>
      split
      case isTrue due => exact Or.inr ⟨h, due, rfl⟩
      case isFalse => exact Or.inl rfl
    case h_4 => exact Or.inl rfl

/-- What the bookkeeping of a tick does not count. -/
theorem ticked_field {α : Type} (field : Task → α)
    (run : ∀ t n, field { t with ticksRun := n } = field t)
    (ready : ∀ t n, field { t with ticksReady := n } = field t)
    (wake : ∀ t n st, field { t with wakeTick := n, state := st } = field t) (g : Globals)
    (n i : Nat) : field ((g.ticked n).tasks i) = field (g.tasks i) := by
  simp only [ticked, updateTickBookkeeping]
  split
  case isFalse => rfl
  case isTrue =>
    unfold tickTask
    split
    case h_1 => exact run _ _
    case h_2 => exact ready _ _
    case h_3 =>
      split
      · exact wake _ _ _
      · rfl
    case h_4 => rfl

theorem ticked_pendingPreemptions (g : Globals) (n i : Nat) :
    ((g.ticked n).tasks i).pendingPreemptions = (g.tasks i).pendingPreemptions :=
  ticked_field Task.pendingPreemptions (fun _ _ => rfl) (fun _ _ => rfl) (fun _ _ _ => rfl) g n i

theorem ticked_running {n i : Nat} :
    ((g.ticked n).tasks i).state = .running ↔ (g.tasks i).state = .running := by
  obtain h | ⟨hb, -, hr⟩ := g.ticked_state n i
  · rw [h]
  · simp [hb, hr]

/-- The handler that goes on with the interrupted execution wakes the sleepers and moves no other
task. -/
theorem preemptHandler_stays (h : g.preemptHandler = (g', none)) (i : Nat) :
    (g'.tasks i).state = (g.tasks i).state ∨
      (g.tasks i).state = .blocked ∧ g.Due i ∧ (g'.tasks i).state = .ready := by
  obtain ⟨n, -, h'⟩ | ⟨cur, -, hrun, h'⟩ | ⟨cur, next, -, -, -, h'⟩ := g.preemptHandler_cases
  · cases h.symm.trans h'
    exact g.ticked_state n i
  · cases h.symm.trans h'
    by_cases hi : i = cur
    · subst hi
      exact Or.inl (by simpa using (ticked_running.mp hrun).symm)
    · simpa [hi] using g.ticked_state 0 i
  · cases h.symm.trans h'

/-- The handler that switches takes the processor from a RUNNING task. -/
theorem preemptHandler_switches {cur next : Nat}
    (h : g.preemptHandler = (g', some (cur, next))) :
    g.currentIdx = some cur ∧ (g.tasks cur).state = .running ∧ g' = g.switched cur next := by
  obtain ⟨n, -, h'⟩ | ⟨cur', -, -, h'⟩ | ⟨cur', next', hidx, hrun, -, h'⟩ := g.preemptHandler_cases
  · cases h.symm.trans h'
  · cases h.symm.trans h'
  · cases h.symm.trans h'
    exact ⟨hidx, ticked_running.mp hrun, rfl⟩

theorem preemptHandler_of_idle (idle : g.Idle) : g.preemptHandler.2 = none := by
  cases h : g.preemptHandler with
  | mk g' switch =>
    cases switch with
    | none => rfl
    | some pair =>
      obtain ⟨hidx, hrun, -⟩ := preemptHandler_switches h
      exact absurd hrun (idle _ hidx)

theorem preemptHandler_of_not_due (notDue : ¬g.SwitchDue) : g.preemptHandler.2 = none := by
  unfold preemptHandler
  dsimp only
  split
  case h_1 => rfl
  case h_2 cur hidx =>
    split
    case isTrue => rfl
    case isFalse enabled =>
      split
      case isTrue => rfl
      case isFalse hrun =>
        split
        case isTrue => rfl
        case isFalse hpending =>
          split
          case isTrue => rfl
          case isFalse hslice =>
            have hrun : ((g.ticked 0).tasks cur).state = .running := not_not.mp hrun
            have hpending : ((g.ticked 0).tasks cur).pendingPreemptions ≤ 0 :=
              Int.not_lt.mp hpending
            rw [ticked_pendingPreemptions] at hpending
            exact absurd ⟨eq_true_of_ne_false enabled, Nat.not_lt.mp hslice, cur, hidx,
              ticked_running.mp hrun, hpending⟩ notDue

theorem switchDue_of_switches {cur next : Nat} (h : g.preemptHandler = (g', some (cur, next))) :
    g.SwitchDue := by
  by_contra notDue
  have stays := preemptHandler_of_not_due notDue
  rw [h] at stays
  cases stays

end Globals

namespace Stmt

variable {g g' : Globals} {s : Stmt} {succ : List Stmt}

/-- The last statements of an execution before it hands the processor to the scheduler. -/
def handsOver : Stmt → Bool
  | yieldBlock _ | yieldSwap _ _ | exit => true
  | _ => false

/-- The statement of `scheduler_run` that follows its store of RUNNING. -/
def dispatches : Stmt → Bool
  | runBlock _ => true
  | _ => false

/-- The statements after a task's entry function. -/
def ends : Stmt → Bool
  | terminate _ | exit => true
  | _ => false

/-- Only the scheduler makes a task RUNNING. -/
theorem exec_running (h : s.exec g = some (g', succ)) {j : Nat}
    (hj : (g'.tasks j).state = .running) : (g.tasks j).state = .running ∨ s = .runRunning j := by
  obtain same | sets | ⟨-, -, ready⟩ := exec_sets h j
  · exact Or.inl (same.symm.trans hj)
  · rw [hj] at sets
    exact Or.inr (eq_of_sets_running sets)
  · cases hj.symm.trans ready

/-- A task that is about to hand the processor over is not RUNNING any more. -/
theorem exec_handsOver (h : s.exec g = some (g', succ)) :
    ∀ s' ∈ succ.head?, s'.handsOver = true → ∃ c ∈ s.cur, (g'.tasks c).state ≠ .running := by
  cases s <;>
    simp only [exec, Option.map_eq_some_iff, Option.some.injEq, Prod.mk.injEq, reduceCtorEq,
      Option.ite_none_right_eq_some] at h
  case yieldState c =>
    obtain ⟨rfl, rfl⟩ := h
    split
    case isTrue => rintro _ ⟨rfl⟩ hl; cases hl
    case isFalse hrun => exact fun _ _ _ => ⟨c, rfl, hrun⟩
  case yieldReady c =>
    obtain ⟨rfl, rfl⟩ := h
    exact fun _ _ _ => ⟨c, rfl, by simp⟩
  all_goals first
    | (obtain ⟨-, rfl⟩ := h; rintro _ ⟨rfl⟩ hl <;> cases hl)
    | (obtain ⟨-, rfl⟩ := h; split <;> rintro _ ⟨rfl⟩ hl <;> cases hl)
    | (obtain ⟨c, -, -, rfl⟩ := h; rintro _ ⟨rfl⟩ hl <;> cases hl)

theorem exec_ends (h : s.exec g = some (g', succ)) : ∀ s' ∈ succ, s'.ends = false := by
  cases s <;>
    simp only [exec, Option.map_eq_some_iff, Option.some.injEq, Prod.mk.injEq, reduceCtorEq,
      Option.ite_none_right_eq_some] at h
  all_goals first
    | (obtain ⟨-, rfl⟩ := h)
    | (obtain ⟨c, -, -, rfl⟩ := h)
  all_goals try split
  all_goals repeat' first | exact List.forall_mem_nil _ | refine List.forall_mem_cons.mpr ⟨rfl, ?_⟩

end Stmt

theorem Op.code_ends (op : Op) : (∀ s ∈ op.code, s.ends = false) ∧
    ∀ s ∈ op.code.head?, s.handsOver = false := by
  constructor
  · cases op
    all_goals repeat' first
      | exact List.forall_mem_nil _
      | refine List.forall_mem_cons.mpr ⟨rfl, ?_⟩
  · cases op <;> rintro _ ⟨rfl⟩ <;> rfl

namespace Machine

variable {k k' : Machine} {a : Action}

/-- What `scheduler_run` knows about the task that `g_current_idx` names. -/
def DispatchPoint (g : Globals) (masked : Bool) : List Stmt → Prop
  | .runCurrent n :: _ | .runRunning n :: _ => (g.tasks n).state = .ready ∧ g.Idle
  | .runBlock _ :: _ => True
  | .runCount _ _ :: _ | .runSwap _ _ :: _ => masked = true
  | _ => g.Idle

/-- The code of the task `i`: its entry function and what it has called, then the end of
`task_trampoline`. -/
def EndsWith (i : Nat) (code : List Stmt) : Prop :=
  code = [] ∨ code = [.exit] ∨
    ∃ pre, code = pre ++ [.terminate i, .exit] ∧ ∀ s ∈ pre, s.ends = false

structure Dispatching (k : Machine) : Prop where
  schedCtx : k.vars.schedCtx = .sched
  sched : k.cpu = .sched →
    DispatchPoint k.vars (k.threads .sched).masked (k.threads .sched).code
  leaving : ∀ i, ∀ s ∈ (k.threads (.task i)).code.head?, s.handsOver = true →
    k.cpu = .task i ∧ (k.vars.tasks i).state ≠ .running
  ends : ∀ i, EndsWith i (k.threads (.task i)).code

theorem dispatching_start (c : Config) : Dispatching c.start where
  schedCtx := rfl
  sched _ _ hc := by cases hc
  leaving i := by
    rintro _ ⟨rfl⟩ hl
    cases hl
  ends i := Or.inr (Or.inr ⟨[.body], rfl, List.forall_mem_singleton.mpr rfl⟩)

/-- The timer does not force a switch between the store of RUNNING in `scheduler_run` and its
`block_alarm`. -/
def SparesDispatch (k : Machine) (a : Action) : Prop :=
  a = .tick → ∀ s ∈ k.next, s.dispatches = true → ¬k.vars.SwitchDue

instance (k : Machine) (a : Action) : Decidable (SparesDispatch k a) :=
  inferInstanceAs (Decidable (_ → _))

theorem Cooperative.sparesDispatch (h : Cooperative a) (k : Machine) : SparesDispatch k a :=
  fun ha => absurd ha h

theorem EndsWith.cons {i : Nat} {s : Stmt} {rest : List Stmt} (h : EndsWith i (s :: rest))
    (hs : s.ends = false) {succ : List Stmt} (hsucc : ∀ s' ∈ succ, s'.ends = false) :
    EndsWith i (succ ++ rest) ∧ rest.head? ≠ some .exit := by
  obtain h | h | ⟨pre, h, hpre⟩ := h
  · cases h
  · cases h
    cases hs
  · cases pre with
    | nil =>
      cases h
      cases hs
    | cons s' pre =>
      obtain ⟨rfl, rfl⟩ := List.cons.inj h
      have hpre' : ∀ s' ∈ pre, s'.ends = false := fun s' hs' =>
        hpre s' (List.mem_cons_of_mem _ hs')
      refine ⟨Or.inr (Or.inr ⟨succ ++ pre, (List.append_assoc ..).symm, fun s' hs' => ?_⟩), ?_⟩
      · rcases List.mem_append.mp hs' with hs' | hs'
        · exact hsucc s' hs'
        · exact hpre' s' hs'
      · cases pre with
        | nil => exact nofun
        | cons s' pre =>
          intro hexit
          cases Option.some.inj hexit
          cases hpre' _ List.mem_cons_self

theorem EndsWith.of_ends {i : Nat} {s : Stmt} {rest : List Stmt} (h : EndsWith i (s :: rest))
    (hs : s.ends = true) : s = .exit ∧ rest = [] ∨ s = .terminate i ∧ rest = [.exit] := by
  obtain h | h | ⟨pre, h, hpre⟩ := h
  · cases h
  · cases h
    exact Or.inl ⟨rfl, rfl⟩
  · cases pre with
    | nil =>
      cases h
      exact Or.inr ⟨rfl, rfl⟩
    | cons s' pre =>
      obtain ⟨rfl, -⟩ := List.cons.inj h
      rw [hpre _ List.mem_cons_self] at hs
      cases hs

/-- A step of a task. -/
theorem Dispatching.of_task (d : Dispatching k) (wf : Wf k) {i : Nat} (hcpu : k.cpu = .task i)
    {th : Thread} (hk : k'.threads = Function.update k.threads k.cpu th)
    (schedCtx : k'.vars.schedCtx = .sched) (sched : k'.cpu = .sched → k'.vars.Idle)
    (leaving : ∀ s ∈ th.code.head?, s.handsOver = true →
      k'.cpu = .task i ∧ (k'.vars.tasks i).state ≠ .running)
    (ends : EndsWith i th.code) : Dispatching k' := by
  obtain ⟨-, -, -, b, n, hwait⟩ := wf.running i hcpu
  have hne := sched_ne_cpu hcpu
  have hself : k'.threads (.task i) = th := thread_of_cpu hk hcpu
  have hother : ∀ j, j ≠ i → k'.threads (.task j) = k.threads (.task j) := fun j hj =>
    thread_other hk (hcpu ▸ fun h => hj (Exec.task.inj h))
  refine ⟨schedCtx, fun h => ?_, fun j => ?_, fun j => ?_⟩
  · rw [thread_other hk hne, hwait]
    exact sched h
  · by_cases hj : j = i
    · subst hj
      rw [hself]
      exact leaving
    · rw [hother j hj]
      intro s hs hl
      cases hcpu.symm.trans (d.leaving j s hs hl).1
      exact absurd rfl hj
  · by_cases hj : j = i
    · subst hj
      rwa [hself]
    · rw [hother j hj]
      exact d.ends j

/-- A step of `scheduler_run`. -/
theorem Dispatching.of_sched (d : Dispatching k) (hcpu : k.cpu = .sched) {th : Thread}
    (hk : k'.threads = Function.update k.threads k.cpu th) (schedCtx : k'.vars.schedCtx = .sched)
    (sched : k'.cpu = .sched → DispatchPoint k'.vars th.masked th.code) : Dispatching k' := by
  have hother : ∀ i, k'.threads (.task i) = k.threads (.task i) := fun i =>
    thread_other hk (hcpu ▸ nofun)
  refine ⟨schedCtx, fun h => ?_, fun i s hs hl => ?_, fun i => ?_⟩
  · rw [thread_of_cpu hk hcpu]
    exact sched h
  · rw [hother] at hs
    cases hcpu.symm.trans (d.leaving i s hs hl).1
  · rw [hother]
    exact d.ends i

/-- A statement returned to is not the last one of its execution. -/
theorem not_handsOver_of_returnPoint {s : Stmt} (h : s.returnPoint = true) (hs : s ≠ .exit) :
    s.handsOver = false := by
  cases s <;> first | rfl | exact absurd rfl hs | cases h

theorem Dispatching.current_ends (d : Dispatching k) {i : Nat} (hcpu : k.cpu = .task i) :
    EndsWith i k.current.code := by
  rw [current, hcpu]
  exact d.ends i

theorem Dispatching.next_leaving (d : Dispatching k) {i : Nat} (hcpu : k.cpu = .task i) :
    ∀ s ∈ k.next, s.handsOver = true → (k.vars.tasks i).state ≠ .running := by
  rw [next, current, hcpu]
  exact fun s hs hl => (d.leaving i s hs hl).2

theorem Dispatching.tick_task (d : Dispatching k) (wf : Wf k) {i : Nat} (hcpu : k.cpu = .task i) :
    Dispatching k.tick := by
  have hidx := (wf.running i hcpu).2.1
  have ends := d.current_ends hcpu
  have leaving := d.next_leaving hcpu
  have frame := k.vars.preemptHandler_frame
  have hcpu' : k.tick.cpu ≠ .sched := by
    obtain h | ⟨n, h, -⟩ := tick_cpu wf
    · rw [h, hcpu]
      exact nofun
    · rw [h]
      exact nofun
  unfold tick at hcpu' ⊢
  cases hp : k.vars.preemptHandler with
  | mk g switch =>
    rw [hp] at frame hcpu'
    have schedCtx : g.schedCtx = .sched := frame.schedCtx.trans d.schedCtx
    cases switch with
    | none =>
      refine d.of_task wf hcpu k.threads_eq_update schedCtx
        (fun h => nomatch hcpu.symm.trans h) ?_ ends
      intro s hs hl
      refine ⟨hcpu, fun hrun => leaving s hs hl ?_⟩
      obtain hsame | ⟨-, -, hready⟩ := Globals.preemptHandler_stays hp i
      · exact hsame ▸ hrun
      · cases hready.symm.trans hrun
    | some pair =>
      obtain ⟨hcur, hrun, -⟩ := Globals.preemptHandler_switches hp
      obtain rfl := Option.some.inj (hidx.symm.trans hcur)
      refine d.of_task wf hcpu rfl schedCtx (fun h => absurd h hcpu') ?_ ends
      exact fun s hs hl => absurd hrun (leaving s hs hl)

theorem Stacked.rest_head (stacked : Stacked k) {s : Stmt} {rest : List Stmt}
    (hc : k.current.code = s :: rest) (hexit : rest.head? ≠ some .exit) :
    ∀ s' ∈ rest.head?, s'.handsOver = false := by
  intro s' hs'
  refine not_handsOver_of_returnPoint (stacked.rest hc s' (List.mem_of_head? hs')) ?_
  rintro rfl
  exact hexit hs'

/-- The statement is done and the task goes on with what it was called from. -/
theorem Dispatching.pop_task (d : Dispatching k) (wf : Wf k) (stacked : Stacked k) {i : Nat}
    (hcpu : k.cpu = .task i) {s : Stmt} {rest : List Stmt} (hc : k.current.code = s :: rest)
    (hs : s.ends = false) {th : Thread} (code : th.code = rest) :
    Dispatching (k.setThread k.cpu th) := by
  subst code
  have ends := d.current_ends hcpu
  rw [hc] at ends
  obtain ⟨hends, hexit⟩ := ends.cons hs (List.forall_mem_nil _)
  refine d.of_task wf hcpu rfl d.schedCtx (fun h => nomatch hcpu.symm.trans h) ?_ hends
  intro s hs hl
  rw [stacked.rest_head hc hexit s hs] at hl
  cases hl

theorem Dispatching.plain_task (d : Dispatching k) (wf : Wf k) (stacked : Stacked k) {i : Nat}
    (hcpu : k.cpu = .task i) {s : Stmt} {rest succ : List Stmt} {g : Globals}
    (hc : k.current.code = s :: rest) (he : s.exec k.vars = some (g, succ)) :
    Dispatching (k.advance s g (succ ++ rest)) := by
  have hlocal := wf.current_locals hcpu s (hc ▸ List.mem_cons_self)
  have schedCtx := (Stmt.exec_schedCtx he).trans d.schedCtx
  have ends := d.current_ends hcpu
  rw [hc] at ends
  by_cases hs : s.ends = true
  · obtain ⟨rfl, -⟩ | ⟨rfl, rfl⟩ := ends.of_ends hs
    · cases he
    · cases he
      refine d.of_task wf hcpu rfl schedCtx (fun h => nomatch hcpu.symm.trans h) ?_
        (Or.inr (Or.inl rfl))
      exact fun _ _ _ => ⟨hcpu, by simp⟩
  · obtain ⟨hends, hexit⟩ := ends.cons (by simpa using hs) (Stmt.exec_ends he)
    refine d.of_task wf hcpu rfl schedCtx (fun h => nomatch hcpu.symm.trans h) ?_ hends
    intro s' hs' hl
    refine ⟨hcpu, ?_⟩
    cases succ with
    | nil =>
      rw [stacked.rest_head hc hexit s' hs'] at hl
      cases hl
    | cons =>
      obtain ⟨c, hcur, hrun⟩ := Stmt.exec_handsOver he s' hs' hl
      exact hlocal.2 c hcur ▸ hrun

theorem Dispatching.call_task (d : Dispatching k) (wf : Wf k) {i : Nat} (hcpu : k.cpu = .task i)
    {op : Op} {rest : List Stmt} (hc : k.current.code = .body :: rest) :
    Dispatching (k.setThread k.cpu { k.current with code := op.code ++ .body :: rest }) := by
  have ends := d.current_ends hcpu
  rw [hc] at ends
  have hsucc : ∀ s ∈ op.code ++ [Stmt.body], s.ends = false := by
    intro s hs
    rcases List.mem_append.mp hs with hs | hs
    · exact op.code_ends.1 s hs
    · rw [List.mem_singleton.mp hs]
      rfl
  have hends := (ends.cons rfl hsucc).1
  rw [List.append_assoc] at hends
  refine d.of_task wf hcpu rfl d.schedCtx (fun h => nomatch hcpu.symm.trans h) ?_ hends
  intro s hs hl
  cases hcode : op.code with
  | nil => cases op <;> cases hcode
  | cons =>
    rw [op.code_ends.2 s (by simpa [hcode] using hs)] at hl
    cases hl

theorem Dispatching.step_task (d : Dispatching k) (wf : Wf k) (stacked : Stacked k) {i : Nat}
    (hcpu : k.cpu = .task i) (h : Step k a k') : Dispatching k' := by
  have hidx := (wf.running i hcpu).2.1
  have ends := d.current_ends hcpu
  have leaving := d.next_leaving hcpu
  have locals := wf.current_locals hcpu
  cases h with
  | handlerReturn hh =>
    refine d.of_task wf hcpu rfl d.schedCtx (fun h => nomatch hcpu.symm.trans h) ?_ ends
    intro s hs hl
    exact ⟨hcpu, fun hrun => leaving s hs hl (by
      rwa [handlerReturn_vars, Globals.modifyTask_field Task.state rfl] at hrun)⟩
  | entryReturn hh hc => exact d.pop_task wf stacked hcpu hc rfl rfl
  | restoreMask hh hc => exact d.pop_task wf stacked hcpu hc rfl rfl
  | runBlock hh hc => cases (locals _ (hc ▸ List.mem_cons_self)).1
  | runSwap hh hc => cases (locals _ (hc ▸ List.mem_cons_self)).1
  | @yieldBlock cur rest hh hc =>
    rw [hc] at ends
    have hsucc : ∀ s ∈ [Stmt.yieldSwap cur k.current.masked], s.ends = false :=
      List.forall_mem_singleton.mpr rfl
    have hends := (ends.cons rfl hsucc).1
    refine d.of_task wf hcpu rfl d.schedCtx (fun h => nomatch hcpu.symm.trans h) ?_ hends
    exact fun _ _ _ => ⟨hcpu, leaving _ (next_eq hc) rfl⟩
  | @yieldSwap cur b rest hh hc =>
    rw [hc] at ends
    have hsucc : ∀ s ∈ [Stmt.restoreMask b], s.ends = false := List.forall_mem_singleton.mpr rfl
    have hends := (ends.cons rfl hsucc).1
    refine d.of_task wf hcpu rfl d.schedCtx (fun _ c hc' => ?_) ?_ hends
    · obtain rfl := Option.some.inj (hidx.symm.trans hc')
      rw [swapToSched_vars, Globals.modifyTask_field Task.state rfl]
      exact leaving _ (next_eq hc) rfl
    · rintro _ ⟨rfl⟩ hl
      cases hl
  | exit hh hc =>
    refine d.of_task wf hcpu rfl d.schedCtx (fun _ c hc' => ?_) nofun (Or.inl rfl)
    obtain rfl := Option.some.inj (hidx.symm.trans hc')
    exact leaving _ (next_eq hc) rfl
  | plain hh hc he => exact d.plain_task wf stacked hcpu hc he
  | call hh hc => exact d.call_task wf hcpu hc
  | tick hm => exact d.tick_task wf hcpu

theorem DispatchPoint.cases {g : Globals} {masked : Bool} {code : List Stmt}
    (h : DispatchPoint g masked code) :
    g.Idle ∨ masked = true ∨ ∃ n, code.head? = some (.runBlock n) := by
  unfold DispatchPoint at h
  split at h
  case h_1 | h_2 => exact Or.inl h.2
  case h_3 => exact Or.inr (Or.inr ⟨_, rfl⟩)
  case h_4 | h_5 => exact Or.inr (Or.inl h)
  case h_6 => exact Or.inl h

/-- The handler does not switch away from `scheduler_run`. -/
theorem Dispatching.tick_stays (d : Dispatching k) (hcpu : k.cpu = .sched)
    (spares : SparesDispatch k .tick) (hm : k.current.masked = false) :
    k.vars.preemptHandler.2 = none := by
  have hcurrent : k.current = k.threads .sched := by rw [current, hcpu]
  obtain idle | masked | ⟨n, hn⟩ := (d.sched hcpu).cases
  · exact Globals.preemptHandler_of_idle idle
  · rw [← hcurrent, hm] at masked
    cases masked
  · rw [← hcurrent] at hn
    exact Globals.preemptHandler_of_not_due (spares rfl _ hn rfl)

/-- How a tick changes the state of a task. -/
theorem tick_state (k : Machine) (i : Nat) :
    (k.tick.vars.tasks i).state = ((k.vars.ticked 0).tasks i).state ∧
        k.tick.vars.currentIdx = k.vars.currentIdx ∨
    ∃ cur next, k.vars.currentIdx = some cur ∧ (k.vars.tasks cur).state = .running ∧
      ((k.vars.ticked 0).setState cur .ready).pickNextReady = some next ∧
      k.vars.preemptHandler.2 = some (cur, next) ∧ k.tick.vars.currentIdx = some next ∧
      (k.tick.vars.tasks i).state = if i = next then .running else
        if i = cur then .ready else ((k.vars.ticked 0).tasks i).state := by
  rw [tick_global (fun g => (g.tasks i).state) fun _ _ _ => Globals.modifyTask_field _ rfl i,
    tick_global Globals.currentIdx fun _ _ _ => rfl]
  obtain ⟨n, -, h⟩ | ⟨cur, hidx, hrun, h⟩ | ⟨cur, next, hidx, hrun, hpick, h⟩ :=
    k.vars.preemptHandler_cases
  · rw [h]
    exact Or.inl ⟨rfl, rfl⟩
  · rw [h]
    refine Or.inl ⟨?_, rfl⟩
    by_cases hi : i = cur
    · subst hi
      simpa using hrun.symm
    · simp [hi]
  · rw [h]
    refine Or.inr ⟨cur, next, hidx, Globals.ticked_running.mp hrun, hpick, rfl, rfl, ?_⟩
    by_cases hn : i = next
    · subst hn
      by_cases hc : i = cur
      · subst hc
        simp [Globals.switched]
      · simp [Globals.switched, hc]
    · by_cases hc : i = cur
      · subst hc
        simp [Globals.switched, hn]
      · simp [Globals.switched, hn, hc]

theorem tick_of_stays (h : k.vars.preemptHandler.2 = none) :
    k.tick = { k with vars := k.vars.preemptHandler.1 } := by
  unfold tick
  split
  case h_1 hp => rw [hp]
  case h_2 hp =>
    rw [hp] at h
    cases h

theorem DispatchPoint.of_stays {g g' : Globals} {masked : Bool} {code : List Stmt}
    (h : DispatchPoint g masked code) (idx : g'.currentIdx = g.currentIdx)
    (states : ∀ i, (g'.tasks i).state = (g.tasks i).state ∨
      (g.tasks i).state = .blocked ∧ g.Due i ∧ (g'.tasks i).state = .ready) :
    DispatchPoint g' masked code := by
  have idle : g.Idle → g'.Idle := by
    intro idle c hc
    obtain hsame | ⟨-, -, hready⟩ := states c
    · rw [hsame]
      exact idle c (idx ▸ hc)
    · rw [hready]
      exact nofun
  have ready : ∀ n, (g.tasks n).state = .ready → (g'.tasks n).state = .ready := by
    intro n hn
    obtain hsame | ⟨-, -, hready⟩ := states n
    · rw [hsame, hn]
    · exact hready
  unfold DispatchPoint at h ⊢
  split at h
  case h_1 n _ | h_2 n _ => exact ⟨ready n h.1, idle h.2⟩
  case h_3 => trivial
  case h_4 | h_5 => exact h
  case h_6 => exact idle h

/-- A tick in `scheduler_run` that does not switch. -/
theorem Wf.tick_sched (wf : Wf k) (hcpu : k.cpu = .sched)
    (stays : k.vars.preemptHandler.2 = none) : Wf k.tick := by
  have frame := k.vars.preemptHandler_frame
  have hp : k.vars.preemptHandler = (k.vars.preemptHandler.1, none) := Prod.ext rfl stays
  have hidx := k.vars.preemptHandler_current
  rw [stays] at hidx
  rw [tick_of_stays stays]
  refine ⟨?_, fun i hi => ?_, fun i hi => ?_, wf.locals, ?_, wf.quiet⟩
  · rw [frame.numTasks]
    exact wf.few
  · rw [frame.numTasks] at hi
    exact (frame.context i).trans (wf.contexts i hi)
  · cases hcpu.symm.trans hi
  · have hpoint := wf.sched
    have running : ∀ n, (k.vars.tasks n).state = .running →
        (k.vars.preemptHandler.1.tasks n).state = .running := by
      intro n hn
      obtain hsame | ⟨hb, -⟩ := Globals.preemptHandler_stays hp n
      · rw [hsame, hn]
      · cases hn.symm.trans hb
    show SchedPoint k.vars.preemptHandler.1 (k.threads .sched).code
    unfold SchedPoint at hpoint ⊢
    split at hpoint
    case h_5 n _ => rwa [frame.numTasks]
    case h_6 n _ => rwa [frame.numTasks, hidx]
    case h_7 n _ | h_8 n _ _ | h_9 n _ _ =>
      rw [frame.numTasks, hidx]
      exact ⟨hpoint.1, hpoint.2.1, running n hpoint.2.2⟩
    all_goals exact hpoint

theorem Dispatching.sched_plain (d : Dispatching k) (wf : Wf k) (hcpu : k.cpu = .sched) {s : Stmt}
    {rest succ : List Stmt} {g : Globals} (hc : k.current.code = s :: rest)
    (he : s.exec k.vars = some (g, succ)) :
    DispatchPoint g k.current.masked (succ ++ rest) := by
  have hknows : DispatchPoint k.vars k.current.masked k.current.code := by
    rw [current, hcpu]
    exact d.sched hcpu
  rw [hc] at hknows
  have hexec := wf.schedExec hcpu hc he
  generalize succ ++ rest = code at hexec
  cases hexec with
  | active | inactive | noneReady | count | canary => exact hknows
  | ready hpick => exact ⟨(Globals.pickNextReady_ready hpick).2, hknows⟩
  | @current next =>
    refine ⟨hknows.1, fun c hc => ?_⟩
    obtain rfl : next = c := Option.some.inj hc
    simp [hknows.1]
  | running => trivial
  | idle =>
    intro c hc
    cases hc

theorem Dispatching.step_sched (d : Dispatching k) (wf : Wf k) (spares : SparesDispatch k a)
    (hcpu : k.cpu = .sched) (h : Step k a k') : Dispatching k' := by
  cases wf.schedStep hcpu h with
  | restoreMask hc =>
    have idle := d.sched hcpu
    rw [← hcpu] at idle
    rw [show (k.threads k.cpu).code = _ from hc] at idle
    exact d.of_sched hcpu rfl d.schedCtx fun _ => idle
  | runBlock hc => exact d.of_sched hcpu rfl d.schedCtx fun _ => rfl
  | @runSwap next b hc =>
    refine d.of_sched hcpu rfl hcpu fun hsched => ?_
    cases (wf.contexts next (wf.point hcpu hc).1).symm.trans hsched
  | plain hc he =>
    exact d.of_sched hcpu rfl ((Stmt.exec_schedCtx he).trans d.schedCtx)
      fun _ => d.sched_plain wf hcpu hc he
  | tick hm =>
    have stays := d.tick_stays hcpu spares hm
    have frame := k.vars.preemptHandler_frame
    have hp : k.vars.preemptHandler = (k.vars.preemptHandler.1, none) := Prod.ext rfl stays
    have hidx := k.vars.preemptHandler_current
    rw [stays] at hidx
    rw [tick_of_stays stays]
    refine d.of_sched hcpu k.threads_eq_update (frame.schedCtx.trans d.schedCtx) fun _ => ?_
    rw [current, hcpu]
    exact (d.sched hcpu).of_stays hidx (Globals.preemptHandler_stays hp)

/-- The control invariants of the runs in which no tick forces a switch out of `scheduler_run`. -/
structure Controlled (k : Machine) : Prop where
  wf : Wf k
  stacked : Stacked k
  dispatching : Dispatching k

theorem Controlled.step (h : Controlled k) (spares : SparesDispatch k a)
    (hstep : system.step k a = some k') : Controlled k' := by
  obtain ⟨wf, stacked, d⟩ := h
  refine ⟨?_, stacked_step stacked hstep, ?_⟩
  · cases hcpu : k.cpu with
    | sched =>
      by_cases ha : a = .tick
      · subst ha
        cases step_cases hstep with
        | tick hm => exact wf.tick_sched hcpu (d.tick_stays hcpu spares hm)
      · exact wf.step_sched hcpu ha (step_cases hstep)
    | task i => exact wf.step_task hcpu (step_cases hstep)
  · cases hcpu : k.cpu with
    | sched => exact d.step_sched wf spares hcpu (step_cases hstep)
    | task i => exact d.step_task wf stacked hcpu (step_cases hstep)

theorem controlled_of_reach {c : Config} {ok : Machine → Action → Prop}
    (spares : ∀ k a, ok k a → SparesDispatch k a) (h : system.Reach ok c.start k) :
    Controlled k :=
  h.invariant ⟨wf_start c, stacked_start c, dispatching_start c⟩ fun k a _ controlled hok hstep =>
    controlled.step (spares k a hok) hstep

/-- In every run without a forced switch between the store of RUNNING and the `block_alarm` of
`scheduler_run`, a saved context is one of the execution it is saved for. -/
theorem contexts_owned (c : Config) {k : Machine} (h : system.Reach SparesDispatch c.start k) :
    (∀ i < k.vars.numTasks, (k.vars.tasks i).context = .task i) ∧ k.vars.schedCtx = .sched := by
  have controlled := controlled_of_reach (fun _ _ hok => hok) h
  exact ⟨controlled.wf.contexts, controlled.dispatching.schedCtx⟩

/-- A tick while the scheduler picks, a forced switch between the two tasks, and one that finds the
second task at its `block_alarm` in `task_yield`. -/
def tickedRun : List Action :=
  script 1 [(.tick, 6), (.tick, 0), (.call .yield, 4), (.tick, 4)]

/-- The tick falls right after `scheduler_run` has stored RUNNING. -/
def lateTickRun : List Action :=
  script 4 [(.tick, 0)]

theorem contexts_owned_ticked :
    ∃ k, system.runGuarded SparesDispatch Config.twoTasks.start tickedRun = some k ∧
      k.vars.tickCount = 3 ∧ k.vars.switchCount = 2 ∧
      (∀ i < k.vars.numTasks, (k.vars.tasks i).context = .task i) ∧ k.vars.schedCtx = .sched := by
  obtain ⟨k, hrun, hticks, hswitches⟩ : ∃ k, system.runGuarded SparesDispatch
      Config.twoTasks.start tickedRun = some k ∧ k.vars.tickCount = 3 ∧ k.vars.switchCount = 2 :=
    System.exists_of_runGuarded (by decide +kernel)
  exact ⟨k, hrun, hticks, hswitches, contexts_owned .twoTasks (System.reach_of_runGuarded hrun)⟩

/-- The handler takes the scheduler for the task that is about to be dispatched. -/
theorem scheduler_saved_in_task :
    ∃ k, system.Reachable Config.twoTasks.start k ∧ 0 < k.vars.numTasks ∧
      (k.vars.tasks 0).context = .sched := by
  obtain ⟨k, hrun, hlt, hctx⟩ : ∃ k, system.runGuarded (fun _ _ => True)
      Config.twoTasks.start lateTickRun = some k ∧ 0 < k.vars.numTasks ∧
      (k.vars.tasks 0).context = .sched :=
    System.exists_of_runGuarded (by decide +kernel)
  exact ⟨k, System.reach_of_runGuarded hrun, hlt, hctx⟩

end Machine

end RtosXrce.Kernel
