import RtosXrce.Kernel.RoundRobin
import RtosXrce.Kernel.WaitLists

/-!
# Stack canaries at the return to the scheduler

`scheduler_run` checks the canary of the task in its local `next` when control comes back to it. An
observer notes the task control came back from, until its canary is checked. As long as a task
gives the processor back only if `scheduler_run` itself switched to it, the two are the same task.
-/

namespace RtosXrce.Kernel

open Library

/-- The statements that resume `g_sched_ctx`. -/
def Stmt.returns : Stmt → Bool
  | yieldSwap _ _ | exit => true
  | _ => false

namespace Machine

variable {k k' : Machine} {act : Action} {owed : Option Nat} {t : Nat}

/-- The task from which control comes back to `scheduler_run` in this step. -/
def handsBack (k : Machine) : Action → Option Nat
  | .exec => if k.current.handlers = [] ∧ k.next.any Stmt.returns then k.vars.currentIdx else none
  | .call _ | .tick => none

/-- The task whose canary is checked in this step. -/
def checks (k : Machine) : Action → Option Nat
  | .exec => k.next.bind fun s => match s with
    | .runCanary n => some n
    | _ => none
  | .call _ | .tick => none

/-- The task `scheduler_run` has switched to: `next`, while it is in its `swapcontext`. -/
def switchedTo (k : Machine) : Option Nat :=
  match (k.threads .sched).code with
  | [.restoreMask _, .runCanary n, .runTest] => some n
  | _ => none

/-- The observer: the task that came back last, unless its canary has been checked since. -/
def noteReturn (k : Machine) (a : Action) (owed : Option Nat) : Option Nat :=
  match k.handsBack a with
  | some t => some t
  | none => if k.checks a = owed then none else owed

/-- The machine with the observer. -/
def watched : System (Machine × Option Nat) Action := system.watch noteReturn

/-- The processor is given back by the task that `scheduler_run` switched to. -/
def ReturnsDirectly (k : Machine) (a : Action) : Prop :=
  ∀ t ∈ k.handsBack a, k.switchedTo = some t

instance (k : Machine) (a : Action) : Decidable (ReturnsDirectly k a) :=
  inferInstanceAs (Decidable (∀ t ∈ k.handsBack a, k.switchedTo = some t))

/-- Where `scheduler_run` is while a check is owed. -/
def Owes (k : Machine) (owed : Option Nat) : Prop :=
  ∀ t ∈ owed, k.cpu = .sched ∧
    ((∃ b, (k.threads .sched).code = [.restoreMask b, .runCanary t, .runTest]) ∨
      (k.threads .sched).code = [.runCanary t, .runTest])

theorem handsBack_sched (wf : Wf k) (hcpu : k.cpu = .sched) : k.handsBack act = none := by
  cases act with
  | exec =>
    refine if_neg fun ⟨_, hreturns⟩ => ?_
    obtain ⟨s, hs, hret⟩ := (Option.any_eq_true _ _).mp hreturns
    obtain ⟨rest, hc⟩ := List.head?_eq_some_iff.mp hs
    refine wf.cpu_ne_sched hc ?_ ?_ hcpu
    · cases s <;> first | rfl | cases hret
    · rintro b rfl
      cases hret
  | call | tick => rfl

/-- A task that gives the processor back leaves `scheduler_run` and the canaries as they were. -/
theorem step_handsBack (wf : Wf k) {i : Nat} (hcpu : k.cpu = .task i)
    (ht : k.handsBack act = some t) (hstep : system.step k act = some k') :
    t = i ∧ k'.cpu = .sched ∧ k'.threads .sched = k.threads .sched ∧
      ∀ j, (k'.vars.tasks j).canaryOk = (k.vars.tasks j).canaryOk := by
  obtain ⟨-, hidx, hctx, -⟩ := wf.running i hcpu
  have hne := sched_ne_cpu hcpu
  cases act with
  | call | tick => cases ht
  | exec =>
    simp only [handsBack, Option.ite_none_right_eq_some] at ht
    obtain ⟨⟨hquiet, hreturns⟩, ht⟩ := ht
    obtain rfl : i = t := Option.some.inj (hidx.symm.trans ht)
    obtain ⟨s, hs, hret⟩ := (Option.any_eq_true _ _).mp hreturns
    obtain ⟨rest, hcode⟩ := List.head?_eq_some_iff.mp hs
    refine ⟨rfl, ?_⟩
    cases step_cases hstep with
    | yieldSwap hh hc =>
      refine ⟨hctx, by simp [hne], fun j => ?_⟩
      rw [swapToSched_vars]
      exact Globals.modifyTask_field Task.canaryOk rfl j
    | exit hh hc => exact ⟨hctx, by simp [hne], fun _ => rfl⟩
    | handlerReturn hh =>
      rw [hquiet] at hh
      cases hh
    | entryReturn hh hc | restoreMask hh hc | runBlock hh hc | yieldBlock hh hc | runSwap hh hc =>
      cases hcode.symm.trans hc
      cases hret
    | plain hh hc he =>
      cases hcode.symm.trans hc
      cases s with
      | yieldSwap | exit => cases he
      | _ => cases hret

/-- While a check is owed, `scheduler_run` gets past it only by the check. -/
theorem Owes.step_sched (h : Owes k (some t)) (ctl : Controlled k) (spares : SparesDispatch k act)
    (hstep : system.step k act = some k') :
    Owes k' (some t) ∧ (k'.vars.tasks t).canaryOk = (k.vars.tasks t).canaryOk ∧
        k.dispatched act = none ∨
      k.checks act = some t ∧ (k.vars.tasks t).canaryOk = true ∧ k.dispatched act = none := by
  obtain ⟨hcpu, hcode⟩ := h t rfl
  have hcurrent : k.current = k.threads .sched := by rw [current, hcpu]
  rw [← hcurrent] at hcode
  cases ctl.wf.schedStep hcpu (step_cases hstep) with
  | runBlock hc | runSwap hc => simp [hc] at hcode
  | @restoreMask b n hc =>
    obtain rfl : n = t := by simpa [hc] using hcode
    refine Or.inl ⟨?_, rfl, by simp [dispatched, next_eq hc]⟩
    rintro _ ⟨rfl⟩
    exact ⟨hcpu, Or.inr (by simp [hcpu])⟩
  | plain hc he =>
    have hhead := next_eq hc
    rw [hc] at hcode
    obtain ⟨b, hcode⟩ | hcode := hcode
    · cases hcode
      cases he
    · cases hcode
      simp only [Stmt.exec, Option.ite_none_right_eq_some] at he
      exact Or.inr ⟨by simp [checks, hhead], he.1, by simp [dispatched, hhead]⟩
  | tick hm =>
    have stays := ctl.dispatching.tick_stays hcpu spares hm
    refine Or.inl ⟨?_, ?_, by simp [dispatched, stays]⟩
    · rw [tick_of_stays stays]
      rintro _ ⟨rfl⟩
      exact h t rfl
    · rw [tick_field Task.canaryOk (fun _ _ => rfl) (fun _ _ => rfl) (fun _ _ => rfl)]
      exact Globals.ticked_field Task.canaryOk (fun _ _ => rfl) (fun _ _ => rfl)
        (fun _ _ _ => rfl) k.vars 0 t

/-- A direct return leaves the check of that task owed. -/
theorem owes_of_handsBack (wf : Wf k) (direct : ReturnsDirectly k act)
    (ht : k.handsBack act = some t) (hstep : system.step k act = some k') :
    Owes k' (some t) ∧ (k'.vars.tasks t).canaryOk = (k.vars.tasks t).canaryOk := by
  cases hcpu : k.cpu with
  | sched => cases (handsBack_sched wf hcpu).symm.trans ht
  | task i =>
    obtain ⟨rfl, hcpu', hsched, hcanary⟩ := step_handsBack wf hcpu ht hstep
    obtain ⟨b, n, hcode⟩ := (wf.running t hcpu).2.2.2
    have hnext : n = t := by simpa [switchedTo, hcode] using direct t ht
    refine ⟨?_, hcanary t⟩
    rintro _ ⟨rfl⟩
    exact ⟨hcpu', Or.inl ⟨b, by rw [hsched, hcode, hnext]⟩⟩

theorem Owes.step (h : Owes k owed) (ctl : Controlled k) (spares : SparesDispatch k act)
    (direct : ReturnsDirectly k act) (hstep : system.step k act = some k') :
    Owes k' (k.noteReturn act owed) := by
  unfold noteReturn
  split
  case h_1 t ht => exact (owes_of_handsBack ctl.wf direct ht hstep).1
  case h_2 =>
    split_ifs with hchecked
    · exact nofun
    · cases owed with
      | none => exact nofun
      | some t =>
        obtain ⟨howes, -⟩ | ⟨hchecks, -⟩ := h.step_sched ctl spares hstep
        · exact howes
        · exact absurd hchecks hchecked

/-! ## Runs -/

/-- No tick forces a switch inside a dispatch, and returns are direct. -/
def ReturnsAsDispatched (k : Machine) (a : Action) : Prop :=
  SparesDispatch k a ∧ ReturnsDirectly k a

instance (k : Machine) (a : Action) : Decidable (ReturnsAsDispatched k a) :=
  inferInstanceAs (Decidable (_ ∧ _))

theorem owes_of_reach {c : Config} {w : Machine × Option Nat}
    (h : watched.Reach (fun w a => ReturnsAsDispatched w.1 a) (c.start, none) w) :
    Controlled w.1 ∧ Owes w.1 w.2 := by
  have controlled (w : Machine × Option Nat)
      (h : watched.Reach (fun w a => ReturnsAsDispatched w.1 a) (c.start, none) w) :
      Controlled w.1 :=
    controlled_of_reach (fun _ _ hok => hok.1) h.unwatch
  refine ⟨controlled w h, h.invariant_with (I := fun w => Owes w.1 w.2) controlled nofun ?_⟩
  intro w a w' ctl howes hok hstep
  obtain ⟨hstep, hnote⟩ := System.watch_step hstep
  rw [hnote]
  exact howes.step ctl hok.1 hok.2 hstep

/-- In front of the check of a corrupted canary the machine stays. -/
theorem no_dispatch_of_corrupted {w : Machine} (ctl : Controlled w) (howes : Owes w (some t))
    (bad : (w.vars.tasks t).canaryOk = false) {k : Machine}
    (h : system.Reach ReturnsAsDispatched w k) :
    Controlled k ∧ Owes k (some t) ∧ (k.vars.tasks t).canaryOk = false := by
  refine h.invariant (I := fun k => Controlled k ∧ Owes k (some t) ∧
    (k.vars.tasks t).canaryOk = false) ⟨ctl, howes, bad⟩ ?_
  rintro k a k' ⟨ctl, howes, bad⟩ hok hstep
  obtain ⟨howes', hcanary, -⟩ | ⟨-, good, -⟩ := howes.step_sched ctl hok.1 hstep
  · exact ⟨ctl.step hok.1 hstep, howes', hcanary.trans bad⟩
  · cases bad.symm.trans good

/-- In every run in which only tasks that `scheduler_run` switched to give the processor back, no
task is dispatched while the canary of the one that came back last is unchecked, and a task that
comes back with a corrupted canary is the last one dispatched. -/
theorem canary_covers_returns (c : Config) {w : Machine × Option Nat}
    (h : watched.Reach (fun w a => ReturnsAsDispatched w.1 a) (c.start, none) w) {a : Action}
    {w' : Machine × Option Nat} (hok : ReturnsAsDispatched w.1 a)
    (hstep : watched.step w a = some w') :
    (w.1.dispatched a ≠ none → w.2 = none) ∧
    ∀ t, w.1.handsBack a = some t → (w.1.vars.tasks t).canaryOk = false →
      ∀ k, system.Reach ReturnsAsDispatched w'.1 k → ∀ b k', ReturnsAsDispatched k b →
        system.step k b = some k' → k.dispatched b = none := by
  obtain ⟨ctl, howes⟩ := owes_of_reach h
  obtain ⟨hstep, -⟩ := System.watch_step hstep
  have waiting {k k' : Machine} {b : Action} {t : Nat} (ctl : Controlled k)
      (howes : Owes k (some t)) (hok : ReturnsAsDispatched k b)
      (hstep : system.step k b = some k') : k.dispatched b = none := by
    obtain ⟨-, -, hnone⟩ | ⟨-, -, hnone⟩ := howes.step_sched ctl hok.1 hstep <;> exact hnone
  refine ⟨fun hdispatch => ?_, fun t ht bad k hk b k' hok' hstep' => ?_⟩
  · cases howed : w.2 with
    | none => rfl
    | some t =>
      rw [howed] at howes
      exact absurd (waiting ctl howes hok hstep) hdispatch
  · obtain ⟨howes', hcanary⟩ := owes_of_handsBack ctl.wf hok.2 ht hstep
    obtain ⟨ctl, howes, -⟩ :=
      no_dispatch_of_corrupted (ctl.step hok.1 hstep) howes' (hcanary.trans bad) hk
    exact waiting ctl howes hok' hstep'

/-- The first task is preempted and comes back, overflows its stack and yields. -/
def overflowRun : List Action :=
  script 7 [(.tick, 0), (.tick, 1), (.call .overflow, 1), (.call .yield, 5)]

/-- The second task runs instead of the first by a forced switch, overflows its stack and yields. -/
def preemptedOverflowRun : List Action :=
  script 7 [(.tick, 0), (.call .overflow, 1), (.call .yield, 11)]

theorem canary_covers_returns_overflow :
    ∃ w w', watched.runGuarded (fun w a => ReturnsAsDispatched w.1 a)
        (Config.twoTasks.start, none) overflowRun = some w ∧
      w.1.vars.switchCount = 3 ∧ w.1.handsBack .exec = some 0 ∧
      watched.step w .exec = some w' ∧
      ∀ k, system.Reach ReturnsAsDispatched w'.1 k → ∀ b k', ReturnsAsDispatched k b →
        system.step k b = some k' → k.dispatched b = none := by
  obtain ⟨w, hrun, hswitches, hback, bad, hok, hsome⟩ : ∃ w, watched.runGuarded
      (fun w a => ReturnsAsDispatched w.1 a) (Config.twoTasks.start, none) overflowRun = some w ∧
      w.1.vars.switchCount = 3 ∧ w.1.handsBack .exec = some 0 ∧
      (w.1.vars.tasks 0).canaryOk = false ∧ ReturnsAsDispatched w.1 .exec ∧
      (watched.step w .exec).isSome := System.exists_of_runGuarded (by decide +kernel)
  obtain ⟨w', hstep⟩ := Option.isSome_iff_exists.mp hsome
  have hreach := System.reach_of_runGuarded hrun
  exact ⟨w, w', hrun, hswitches, hback, hstep,
    (canary_covers_returns .twoTasks hreach hok hstep).2 0 hback bad⟩

/-- `scheduler_run` checks the first task, which it had dispatched, and dispatches it again. -/
theorem corrupted_canary_unchecked :
    ∃ w w', watched.runGuarded (fun _ _ => True) (Config.twoTasks.start, none)
        preemptedOverflowRun = some w ∧
      w.2 = some 1 ∧ (w.1.vars.tasks 1).canaryOk = false ∧ w.1.vars.numTasks = 2 ∧
      watched.step w .exec = some w' ∧ w.1.dispatched .exec = some 0 := by
  obtain ⟨w, hrun, howed, bad, hnum, hdispatch, hsome⟩ : ∃ w, watched.runGuarded (fun _ _ => True)
      (Config.twoTasks.start, none) preemptedOverflowRun = some w ∧ w.2 = some 1 ∧
      (w.1.vars.tasks 1).canaryOk = false ∧ w.1.vars.numTasks = 2 ∧
      w.1.dispatched .exec = some 0 ∧ (watched.step w .exec).isSome :=
    System.exists_of_runGuarded (by decide +kernel)
  obtain ⟨w', hstep⟩ := Option.isSome_iff_exists.mp hsome
  exact ⟨w, w', hrun, howed, bad, hnum, hstep, hdispatch⟩

end Machine

end RtosXrce.Kernel
