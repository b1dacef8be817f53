import Mathlib.Data.List.GetD
import RtosXrce.Kernel.TaskStates

/-!
# Spawned tasks

`task_spawn` returns the task it has created whether or not `scheduler_add_task` found room for it.
A task of the table has ended when `scheduler_run` returns; a task that found no room is never run.
An observer keeps what the calls of `task_spawn` have returned.
-/

namespace RtosXrce.Kernel

open Library

/-- The task that a call of `task_spawn` returned: an entry of `g_tasks`, or one that found no
room there. -/
inductive Spawned where
  | listed (i : Nat)
  | unlisted (task : Task)

namespace Globals

variable {g : Globals} {spawns : List Spawned}

/-- What `task_spawn` returns. -/
def spawned (g : Globals) (priority : Int) : Spawned :=
  if g.numTasks ≥ schedMaxTasks then .unlisted (Task.create g.numTasks priority)
  else .listed g.numTasks

/-- A call of `task_spawn`, noted. -/
def spawnNoted (s : Globals × List Spawned) (priority : Int) : Globals × List Spawned :=
  (s.1.taskSpawn priority, s.2 ++ [s.1.spawned priority])

/-- The calls of `task_spawn` so far filled the table from the front; those after that were lost. -/
structure Registered (g : Globals) (spawns : List Spawned) : Prop where
  numTasks : g.numTasks = min spawns.length schedMaxTasks
  listed : ∀ i, .listed i ∈ spawns → i < g.numTasks
  lost : schedMaxTasks < spawns.length ↔ ∃ t, .unlisted t ∈ spawns
  ready : ∀ t, .unlisted t ∈ spawns → t.state = .ready

theorem Registered.spawn (h : Registered g spawns) (priority : Int) :
    Registered (g.taskSpawn priority) (spawns ++ [g.spawned priority]) := by
  obtain ⟨numTasks, listed, lost, ready⟩ := h
  unfold taskSpawn spawned
  split
  case isTrue full =>
    refine ⟨?_, fun i hi => listed i (by simpa using hi), ?_, fun t ht => ?_⟩
    · simp only [List.length_append, List.length_singleton]
      omega
    · refine iff_of_true ?_ ⟨_, List.mem_append_right _ List.mem_cons_self⟩
      simp only [List.length_append, List.length_singleton]
      omega
    · rcases List.mem_append.mp ht with ht | ht
      · exact ready t ht
      · obtain rfl : t = _ := Spawned.unlisted.inj (List.mem_singleton.mp ht)
        rfl
  case isFalse room =>
    have none : ¬∃ t, .unlisted t ∈ spawns := fun hlost => by
      have := lost.mpr hlost
      omega
    refine ⟨?_, fun i hi => ?_, ?_, fun t ht => ?_⟩
    · simp only [List.length_append, List.length_singleton]
      omega
    · rcases List.mem_append.mp hi with hi | hi
      · exact Nat.lt_succ_of_lt (listed i hi)
      · obtain rfl : i = _ := Spawned.listed.inj (List.mem_singleton.mp hi)
        exact Nat.lt_succ_self _
    · refine iff_of_false ?_ ?_
      · simp only [List.length_append, List.length_singleton]
        omega
      · rintro ⟨t, ht⟩
        exact none ⟨t, by simpa using ht⟩
    · exact ready t (by simpa using ht)

theorem Registered.of_numTasks {g' : Globals} (h : Registered g spawns)
    (same : g'.numTasks = g.numTasks) : Registered g' spawns :=
  ⟨same.trans h.numTasks, fun i hi => same ▸ h.listed i hi, h.lost, h.ready⟩

end Globals

theorem Stmt.exec_numTasks {g g' : Globals} {s : Stmt} {succ : List Stmt}
    (h : s.exec g = some (g', succ)) (hs : ∀ p, s ≠ .spawn p) : g'.numTasks = g.numTasks := by
  cases exec_stores h with
  | spawn p => exact absurd rfl (hs p)
  | wakeClear => simp
  | _ => rfl

namespace Config

/-- `main` calls `task_spawn` for each of the priorities, then `scheduler_run`. -/
def spawnAll (c : Config) (priorities : List Int) : Machine × List Spawned :=
  let none : Config := { c with priorities := [], few := by decide }
  let spawned := priorities.foldl Globals.spawnNoted (none.vars, [])
  ({ none.start with vars := spawned.1 }, spawned.2)

theorem taskSpawn_vars (c : Config) (priority : Int) :
    ∃ c' : Config, c.vars.taskSpawn priority = c'.vars := by
  unfold Globals.taskSpawn
  split
  case isTrue => exact ⟨c, rfl⟩
  case isFalse room =>
    have room : c.priorities.length + 1 ≤ schedMaxTasks := Nat.not_le.mp room
    refine ⟨{ c with priorities := c.priorities ++ [priority], few := by simpa using room }, ?_⟩
    simp only [vars, Globals.mk.injEq, List.length_append, List.length_singleton, and_self,
      and_true]
    funext i
    by_cases hi : i = c.priorities.length
    · subst hi
      simp
    · rw [Function.update_of_ne hi]
      congr 1
      rcases Nat.lt_or_gt_of_ne hi with hlt | hgt
      · rw [List.getD_append _ _ _ _ hlt]
      · have past : (c.priorities ++ [priority]).length ≤ i := by
          rw [List.length_append, List.length_singleton]
          omega
        rw [List.getD_eq_default _ _ hgt.le, List.getD_eq_default _ _ past]

theorem foldl_spawnNoted (c : Config) {spawns : List Spawned} (h : c.vars.Registered spawns)
    (priorities : List Int) :
    ∃ c' : Config, (priorities.foldl Globals.spawnNoted (c.vars, spawns)).1 = c'.vars ∧
      c'.vars.Registered (priorities.foldl Globals.spawnNoted (c.vars, spawns)).2 := by
  induction priorities generalizing c spawns with
  | nil => exact ⟨c, rfl, h⟩
  | cons priority priorities ih =>
    have hspawn := h.spawn priority
    obtain ⟨c', hc'⟩ := c.taskSpawn_vars priority
    rw [List.foldl_cons, Globals.spawnNoted]
    rw [hc'] at hspawn ⊢
    exact ih c' hspawn

/-- `scheduler_run` starts with the tasks that found room. -/
theorem spawnAll_start (c : Config) (priorities : List Int) :
    ∃ c' : Config, (c.spawnAll priorities).1 = c'.start ∧
      c'.vars.Registered (c.spawnAll priorities).2 := by
  have none : ({ c with priorities := [], few := by decide } : Config).vars.Registered [] :=
    ⟨rfl, nofun, iff_of_false (by decide) (by simp), nofun⟩
  obtain ⟨c', hvars, hreg⟩ := foldl_spawnNoted _ none priorities
  refine ⟨c', ?_, hreg⟩
  unfold spawnAll
  dsimp only
  rw [hvars]
  rfl

end Config

namespace Machine

variable {k k' : Machine} {a : Action}

/-- The step is a call of `task_spawn`. -/
def spawns (k : Machine) : Action → Option Int
  | .exec => if k.current.handlers = [] then k.next.bind fun s => match s with
      | .spawn priority => some priority
      | _ => none
    else none
  | _ => none

def noteSpawn (k : Machine) (a : Action) (spawns : List Spawned) : List Spawned :=
  match k.spawns a with
  | some priority => spawns ++ [k.vars.spawned priority]
  | none => spawns

def spawning : System (Machine × List Spawned) Action := system.watch noteSpawn

theorem noteSpawn_of_code {s : Stmt} {rest : List Stmt} (hc : k.current.code = s :: rest)
    (hs : ∀ p, s ≠ .spawn p) (spawns : List Spawned) : k.noteSpawn .exec spawns = spawns := by
  have none : k.spawns .exec = none := by
    simp only [Machine.spawns, next_eq hc, Option.bind_some, ite_self]
  rw [noteSpawn, none]

theorem registered_step {spawns : List Spawned} (h : k.vars.Registered spawns)
    (hstep : Step k a k') : k'.vars.Registered (k.noteSpawn a spawns) := by
  cases hstep with
  | handlerReturn hh =>
    have none : k.spawns .exec = none := by simp [Machine.spawns, hh]
    rw [noteSpawn, none]
    exact h.of_numTasks rfl
  | entryReturn hh hc | restoreMask hh hc | runBlock hh hc | yieldBlock hh hc | runSwap hh hc
  | yieldSwap hh hc | exit hh hc =>
    rw [noteSpawn_of_code hc (by simp)]
    exact h.of_numTasks rfl
  | @plain s rest succ g hh hc he =>
    by_cases hs : ∃ p, s = .spawn p
    · obtain ⟨p, rfl⟩ := hs
      have spawn : k.spawns .exec = some p := by simp [Machine.spawns, hh, next_eq hc]
      cases he
      rw [noteSpawn, spawn]
      exact h.spawn p
    · have hs : ∀ p, s ≠ .spawn p := fun p hp => hs ⟨p, hp⟩
      rw [noteSpawn_of_code hc hs]
      exact h.of_numTasks (Stmt.exec_numTasks he hs)
  | call => exact h.of_numTasks rfl
  | tick => exact h.of_numTasks k.frame_tick.numTasks

/-! ## The end of `scheduler_run` -/

/-- `scheduler_run` has returned. -/
def Returned (k : Machine) : Prop := k.cpu = .sched ∧ (k.threads .sched).code = []

instance (k : Machine) : Decidable k.Returned := inferInstanceAs (Decidable (_ ∧ _))

/-- Once its test has failed, `scheduler_run` has seen every task TERMINATED. -/
def Finished (k : Machine) : Prop :=
  (k.threads .sched).code = [.runIdle] ∨ (k.threads .sched).code = [] →
    ∀ i < k.vars.numTasks, (k.vars.tasks i).state = .terminated

theorem Finished.step_task (wf : Wf k) {i : Nat} (hcpu : k.cpu = .task i)
    (hstep : system.step k a = some k') : Finished k' := by
  obtain ⟨th, hth, -⟩ := step_moves hstep
  obtain ⟨-, -, -, b, n, hcode⟩ := wf.running i hcpu
  unfold Finished
  rw [thread_other hth (sched_ne_cpu hcpu), hcode]
  simp

theorem Finished.step_sched (h : Finished k) (ctl : Controlled k) (spares : SparesDispatch k a)
    (hcpu : k.cpu = .sched) (hstep : Step k a k') : Finished k' := by
  cases ctl.wf.schedStep hcpu hstep with
  | restoreMask | runBlock | runSwap =>
    unfold Finished
    simp [hcpu]
  | @plain s rest succ g hc he =>
    have hexec := ctl.wf.schedExec hcpu hc he
    have hold : (k.threads .sched).code = s :: rest := code_of_cpu hcpu hc
    unfold Finished at h ⊢
    simp only [advance_threads, advance_vars, hcpu]
    generalize succ ++ rest = code at hexec
    cases hexec with
    | active | noneReady | ready | current | running | count | canary => simp
    | inactive hnone =>
      intro _ i hi
      by_contra hactive
      exact hnone (List.any_eq_true.mpr ⟨i, List.mem_range.mpr hi, by simpa using hactive⟩)
    | idle => exact fun _ => h (Or.inl hold)
  | tick hm =>
    have stays := ctl.dispatching.tick_stays hcpu spares hm
    intro hcode i hi
    rw [k.frame_tick.numTasks] at hi
    rw [tick_of_stays stays] at hcode
    exact k.tick_terminated.mpr (h hcode i hi)

/-- The entry function of the task has returned, and the task is TERMINATED. -/
def Ended (k : Machine) : Spawned → Prop
  | .listed i => (k.vars.tasks i).state = .terminated ∧ (k.threads (.task i)).code = []
  | .unlisted t => t.state = .terminated

instance (k : Machine) (t : Spawned) : Decidable (k.Ended t) :=
  match t with
  | .listed _ => inferInstanceAs (Decidable (_ ∧ _))
  | .unlisted _ => inferInstanceAs (Decidable (_ = _))

theorem ended_of_terminated (states : States k) (d : Dispatching k) (hcpu : k.cpu = .sched)
    {i : Nat} (terminated : (k.vars.tasks i).state = .terminated) : k.Ended (.listed i) := by
  refine ⟨terminated, (states.ended i terminated).resolve_left fun hexit => ?_⟩
  have leaving := d.leaving i .exit (by rw [hexit]; rfl) rfl
  cases hcpu.symm.trans leaving.1

/-- What is known of the runs in which no tick forces a switch out of `scheduler_run`. -/
structure Spawning (w : Machine × List Spawned) : Prop where
  controlled : Controlled w.1
  states : States w.1
  registered : w.1.vars.Registered w.2
  finished : Finished w.1

theorem spawning_of_reach {c : Config} {priorities : List Int} {w : Machine × List Spawned}
    (h : spawning.Reach (fun w a => SparesDispatch w.1 a) (c.spawnAll priorities) w) :
    Spawning w := by
  obtain ⟨c', hstart, hreg⟩ := c.spawnAll_start priorities
  have start : Spawning (c.spawnAll priorities) := by
    refine ⟨?_, ?_, ?_, ?_⟩ <;> rw [hstart]
    · exact ⟨wf_start c', stacked_start c', dispatching_start c'⟩
    · exact states_start c'
    · exact hreg
    · exact fun h => by simp [Config.start] at h
  refine h.invariant start ?_
  rintro w a w' ⟨ctl, states, hreg, hfin⟩ hok hstep
  obtain ⟨hstep, hnote⟩ := System.watch_step hstep
  refine ⟨ctl.step hok hstep, states.step ctl hstep, ?_, ?_⟩
  · rw [hnote]
    exact registered_step hreg (step_cases hstep)
  · cases hcpu : w.1.cpu with
    | sched => exact hfin.step_sched ctl hok hcpu (step_cases hstep)
    | task i => exact .step_task ctl.wf hcpu hstep

/-- When `scheduler_run` returns, all tasks that calls of `task_spawn` have returned, before it and
during it, have ended if and only if there were at most `SCHED_MAX_TASKS` of these calls. -/
theorem spawned_tasks_end_iff (c : Config) (priorities : List Int) {w : Machine × List Spawned}
    (h : spawning.Reach (fun w a => SparesDispatch w.1 a) (c.spawnAll priorities) w)
    (returned : w.1.Returned) : (∀ t ∈ w.2, w.1.Ended t) ↔ w.2.length ≤ schedMaxTasks := by
  obtain ⟨ctl, states, hreg, hfin⟩ := spawning_of_reach h
  constructor
  · intro all
    by_contra more
    obtain ⟨t, ht⟩ := hreg.lost.mp (Nat.not_le.mp more)
    have ended : t.state = .terminated := all _ ht
    cases (hreg.ready t ht).symm.trans ended
  · intro few t ht
    cases t with
    | listed i =>
      have terminated := hfin (Or.inr returned.2) i (hreg.listed i ht)
      exact ended_of_terminated states ctl.dispatching returned.1 terminated
    | unlisted t => exact absurd (hreg.lost.mpr ⟨t, ht⟩) (Nat.not_lt.mpr few)

/-- A task spawns a second one and ends, then the second does. -/
def spawnRun : List Action := script 7 [(.call (.spawn 0), 20)]

theorem spawned_tasks_end_iff_two :
    ∃ w, spawning.runGuarded (fun w a => SparesDispatch w.1 a) (Config.lowHigh.spawnAll [0])
        spawnRun = some w ∧ w.1.Returned ∧ w.2.length = 2 ∧ ∀ t ∈ w.2, w.1.Ended t := by
  obtain ⟨w, hrun, hreturned, hlength⟩ : ∃ w, spawning.runGuarded
      (fun w a => SparesDispatch w.1 a) (Config.lowHigh.spawnAll [0]) spawnRun = some w ∧
      w.1.Returned ∧ w.2.length = 2 := System.exists_of_runGuarded (by decide +kernel)
  refine ⟨w, hrun, hreturned, hlength, ?_⟩
  exact (spawned_tasks_end_iff .lowHigh [0] (System.reach_of_runGuarded hrun) hreturned).mpr
    (by rw [hlength]; decide)

/-- `scheduler_run` dispatches each of its tasks once, and each ends at once. -/
def fullTableRun : List Action := script 386 []

/-- The task of the 33rd call found no room and is still READY. -/
theorem unlisted_task_lost :
    ∃ w, spawning.Reach (fun w a => SparesDispatch w.1 a)
        (Config.lowHigh.spawnAll (List.replicate 33 0)) w ∧
      w.1.Returned ∧ w.2.length = 33 ∧ ¬∀ t ∈ w.2, w.1.Ended t := by
  obtain ⟨w, hrun, hreturned, hlength, hlost⟩ : ∃ w, spawning.runGuarded
      (fun w a => SparesDispatch w.1 a) (Config.lowHigh.spawnAll (List.replicate 33 0))
      fullTableRun = some w ∧ w.1.Returned ∧ w.2.length = 33 ∧ ¬∀ t ∈ w.2, w.1.Ended t :=
    System.exists_of_runGuarded (by decide +kernel)
  exact ⟨w, System.reach_of_runGuarded hrun, hreturned, hlength, hlost⟩

end Machine

end RtosXrce.Kernel
