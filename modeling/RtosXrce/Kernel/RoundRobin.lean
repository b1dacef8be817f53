import Mathlib.Data.Int.Order.Basic
import RtosXrce.Kernel.Dispatch
import RtosXrce.Library.Cyclic

/-!
# Tasks of one priority take turns

`pick_next_ready` breaks ties by scanning the table from the task dispatched last, whatever its
priority. A task that became READY again is picked before one that has been waiting since its last
turn only where the task dispatched last stands after the waiting one and before it in the table;
where only tasks of their priority are picked, that does not happen.
-/

namespace RtosXrce.Kernel

open Library

namespace Globals

variable {g : Globals} {cur a b : Nat}

/-- The position `pick_next_ready` starts its scan from. -/
def scanStart (g : Globals) : Nat :=
  match g.currentIdx with
  | none => 0
  | some c => (c + 1) % g.numTasks

theorem pickNextReady_eq (g : Globals) : g.pickNextReady =
    (best (fun i => (g.tasks i).state = .ready) (fun i => (g.tasks i).priority)
      (List.range g.numTasks)).bind fun best =>
        (scan g.numTasks g.scanStart).find? fun idx =>
          (g.tasks idx).state = .ready ∧ (g.tasks idx).priority = best := by
  have hbest : g.bestPriority = best (fun i => (g.tasks i).state = .ready)
    (fun i => (g.tasks i).priority) (List.range g.numTasks) := rfl
  unfold pickNextReady
  rw [hbest]
  cases best (fun i => (g.tasks i).state = .ready) (fun i => (g.tasks i).priority)
    (List.range g.numTasks) <;> rfl

/-- `pick_next_ready` finds nothing exactly when no task is READY; otherwise it finds the READY task
of the highest priority that comes first in the order starting after `g_current_idx`. -/
theorem pickNextReady_spec (g : Globals) :
    (g.pickNextReady = none ↔ ∀ i < g.numTasks, (g.tasks i).state ≠ .ready) ∧
    ∀ a, g.pickNextReady = some a →
      a < g.numTasks ∧ (g.tasks a).state = .ready ∧
      (∀ i < g.numTasks, (g.tasks i).state = .ready →
        (g.tasks i).priority ≤ (g.tasks a).priority) ∧
      ∀ i < g.numTasks, (g.tasks i).state = .ready →
        (g.tasks i).priority = (g.tasks a).priority →
        turn g.numTasks g.scanStart a ≤ turn g.numTasks g.scanStart i := by
  have hstart (i : Nat) (hi : i < g.numTasks) : g.scanStart < g.numTasks := by
    unfold scanStart
    split
    · omega
    · exact Nat.mod_lt _ (by omega)
  obtain ⟨hnone, hsome⟩ := best_spec (p := fun i => (g.tasks i).state = .ready)
    (f := fun i => (g.tasks i).priority) (List.range g.numTasks)
  rw [pickNextReady_eq]
  cases hbest : best (fun i => (g.tasks i).state = .ready) (fun i => (g.tasks i).priority)
      (List.range g.numTasks) with
  | none => exact ⟨iff_of_true rfl fun i hi => hnone hbest i (List.mem_range.mpr hi), nofun⟩
  | some b =>
    obtain ⟨⟨i, hi, hready, hprio⟩, hmax⟩ := hsome b hbest
    have hi := List.mem_range.mp hi
    rw [Option.bind_some]
    constructor
    · -- the scan reaches the entry the best priority was read from
      refine iff_of_false (fun hmiss => ?_) fun h => h i hi hready
      have := find?_scan_eq_none (hstart i hi) hmiss hi
      simp [hready, hprio] at this
    · intro a ha
      obtain ⟨hhit, j, hj, hpos, -⟩ := find?_scan ha
      obtain ⟨hreadyA, hprioA⟩ : (g.tasks a).state = .ready ∧ (g.tasks a).priority = b := by
        simpa using hhit
      refine ⟨hpos ▸ Nat.mod_lt _ (by omega), hreadyA, fun c hc hreadyC => ?_,
        fun c hc hreadyC hsame => ?_⟩
      · rw [hprioA]
        exact hmax c (List.mem_range.mpr hc) hreadyC
      · exact turn_le_of_find?_scan (hstart i hi) hc ha (by simp [hreadyC, hsame, hprioA])

/-- The scan passes over a READY task of the picked priority only if `g_current_idx` stands there,
or after it and before the picked task. -/
theorem pickNextReady_between (h : g.pickNextReady = some a) (hidx : g.currentIdx = some cur)
    (hcur : cur < g.numTasks) (hb : b < g.numTasks) (hab : a ≠ b)
    (ready : (g.tasks b).state = .ready) (same : (g.tasks a).priority = (g.tasks b).priority) :
    cur = b ∨ Between b cur a := by
  unfold pickNextReady at h
  split at h
  case h_1 => cases h
  case h_2 best hbest =>
    rw [hidx] at h
    have hscan : (scan g.numTasks ((cur + 1) % g.numTasks)).find? (fun idx =>
        (g.tasks idx).state = .ready ∧ (g.tasks idx).priority = best) = some a := h
    have ha : (g.tasks a).priority = best := (by simpa using (find?_scan hscan).1 : _ ∧ _).2
    exact between_of_find?_scan hcur hb hab hscan (by simp [ready, ← same, ha])

/-- From between `a` and `b`, the scan comes to `b` before it has gone further. -/
theorem pickNextReady_rotates {n : Nat} (h : g.pickNextReady = some n)
    (hidx : g.currentIdx = some cur) (hcur : cur < g.numTasks) (hb : b < g.numTasks)
    (ready : (g.tasks b).state = .ready) (same : (g.tasks n).priority = (g.tasks b).priority)
    (hab : a ≠ b) (hcb : cur ≠ b) (rotates : ¬Between b cur a) : ¬Between b n a := by
  by_cases hnb : n = b
  · subst hnb
    unfold Between
    omega
  · have between := (pickNextReady_between h hidx hcur hb hnb ready same).resolve_left hcb
    unfold Between at *
    omega

theorem anyTaskActive_of_ready (hb : b < g.numTasks) (ready : (g.tasks b).state = .ready) :
    g.anyTaskActive = true :=
  List.any_eq_true.mpr ⟨b, List.mem_range.mpr hb, by simp [ready]⟩

end Globals

/-- Two tasks of low priority and one of high priority, without preemption. -/
def Config.lowLowHigh : Config :=
  { Config.lowHigh with priorities := [1, 1, 10], few := by decide }

namespace Machine

variable {k k' : Machine} {act : Action} {a b : Nat}

/-- The task a step makes RUNNING: the one `scheduler_run` has picked, or the one
`preempt_handler` switches to. -/
def dispatched (k : Machine) : Action → Option Nat
  | .exec => k.next.bind fun s => match s with
    | .runRunning n => some n
    | _ => none
  | .tick => k.vars.preemptHandler.2.map Prod.snd
  | .call _ => none

/-- `b` is READY, at the priority of `a`. -/
def Waits (k : Machine) (a b : Nat) : Prop :=
  (k.vars.tasks b).state = .ready ∧ (k.vars.tasks a).priority = (k.vars.tasks b).priority

instance (k : Machine) (a b : Nat) : Decidable (k.Waits a b) := inferInstanceAs (Decidable (_ ∧ _))

/-- The step calls `pick_next_ready`. -/
def Picks (k : Machine) (act : Action) : Prop :=
  act = .exec ∧ k.next = some .runPick ∨ act = .tick ∧ k.vars.SwitchDue

instance (k : Machine) (act : Action) : Decidable (k.Picks act) :=
  inferInstanceAs (Decidable (_ ∨ _))

/-- Where a task is picked and `a` is READY, or made so by the tick, the task dispatched last does
not stand after `b` and before `a`. -/
def InTurn (a b : Nat) (k : Machine) (act : Action) : Prop :=
  k.Picks act → ((k.vars.tasks a).state = .ready ∨ act = .tick ∧ k.vars.Due a) →
    ∀ h ∈ k.vars.currentIdx, ¬Between b h a

instance (a b : Nat) (k : Machine) (act : Action) : Decidable (InTurn a b k act) :=
  inferInstanceAs (Decidable (_ → _ → _))

/-- `a` has had its turn and `b` is still waiting for its own. -/
structure Turn (a b : Nat) (k : Machine) : Prop where
  known : b < k.vars.numTasks
  current : ∃ cur, k.vars.currentIdx = some cur ∧ cur < k.vars.numTasks ∧
    (cur = b → (k.threads .sched).code = [.runRunning b])
  picked : (k.threads .sched).code ≠ [.runCurrent a] ∧ (k.threads .sched).code ≠ [.runRunning a]
  active : (k.threads .sched).code ≠ [.runIdle]

/-- `scheduler_run` waits for the task it has dispatched. -/
theorem turn_of_waiting {m : Bool} {n : Nat}
    (hcode : (k.threads .sched).code = [.restoreMask m, .runCanary n, .runTest])
    (known : b < k.vars.numTasks)
    (current : ∃ cur, k.vars.currentIdx = some cur ∧ cur < k.vars.numTasks ∧ cur ≠ b) :
    Turn a b k := by
  obtain ⟨cur, hidx, hlt, hcur⟩ := current
  refine ⟨known, ⟨cur, hidx, hlt, fun h => absurd h hcur⟩, ?_, ?_⟩ <;> rw [hcode]
  · exact ⟨nofun, nofun⟩
  · exact nofun

/-- A step of a task, or of the timer in it. -/
theorem Wf.turn_of_task (wf : Wf k) {i : Nat} (hcpu : k.cpu = .task i) {th : Thread}
    (hk : k'.threads = Function.update k.threads k.cpu th) (known : b < k'.vars.numTasks)
    (current : ∃ cur, k'.vars.currentIdx = some cur ∧ cur < k'.vars.numTasks ∧ cur ≠ b) :
    Turn a b k' := by
  obtain ⟨-, -, -, m, n, hwait⟩ := wf.running i hcpu
  have hne := sched_ne_cpu hcpu
  refine turn_of_waiting (m := m) (n := n) ?_ known current
  rw [thread_other hk hne, hwait]

theorem Turn.step_task (turn : Turn a b k) (wf : Wf k) {i : Nat} (hcpu : k.cpu = .task i)
    (h : Step k act k') (ready : (k'.vars.tasks b).state = .ready) : Turn a b k' := by
  obtain ⟨hlt, hidx, -, m, n, hwait⟩ := wf.running i hcpu
  have current : ∃ cur, k.vars.currentIdx = some cur ∧ cur < k.vars.numTasks ∧ cur ≠ b := by
    obtain ⟨cur, hcur, hlt, hb⟩ := turn.current
    refine ⟨cur, hcur, hlt, fun h => ?_⟩
    cases hwait.symm.trans (hb h)
  cases h with
  | handlerReturn | entryReturn | restoreMask | runBlock | yieldBlock | runSwap | yieldSwap | exit
  | call => exact wf.turn_of_task hcpu rfl turn.known current
  | @plain s rest succ g hh hc he =>
    have hlocal := wf.current_locals hcpu s (hc ▸ List.mem_cons_self)
    have table := Stmt.exec_table he wf.few wf.contexts
    obtain ⟨cur, hcur, hlt, hne⟩ := current
    refine wf.turn_of_task hcpu rfl (Nat.lt_of_lt_of_le turn.known table.1)
      ⟨cur, ?_, Nat.lt_of_lt_of_le hlt table.1, hne⟩
    exact (Stmt.exec_frame hlocal.1 he).1.trans hcur
  | tick hm =>
    have frame := k.vars.preemptHandler_frame
    have hcurrent := k.vars.preemptHandler_current
    unfold tick at ready ⊢
    cases hp : k.vars.preemptHandler with
    | mk g switch =>
      rw [hp] at frame hcurrent ready
      cases switch with
      | none =>
        obtain ⟨cur, hcur, hlt, hne⟩ := current
        refine wf.turn_of_task hcpu k.threads_eq_update
          (frame.numTasks ▸ turn.known) ⟨cur, ?_, frame.numTasks ▸ hlt, hne⟩
        exact Eq.trans hcurrent hcur
      | some pair =>
        obtain ⟨cur, next⟩ := pair
        obtain ⟨-, hlt, hidx, hrun⟩ := hcurrent
        refine wf.turn_of_task hcpu rfl (frame.numTasks ▸ turn.known)
          ⟨next, hidx, frame.numTasks ▸ hlt, ?_⟩
        rintro rfl
        dsimp only at ready
        rw [Globals.modifyTask_field Task.state rfl, hrun] at ready
        cases ready

/-- A step of `scheduler_run`. -/
theorem Turn.of_sched (turn : Turn a b k) (hcpu : k.cpu = .sched) {th : Thread}
    (hk : k'.threads = Function.update k.threads k.cpu th)
    (grows : k.vars.numTasks ≤ k'.vars.numTasks)
    (current : ∃ cur, k'.vars.currentIdx = some cur ∧ cur < k'.vars.numTasks ∧
      (cur = b → th.code = [.runRunning b]))
    (picked : th.code ≠ [.runCurrent a] ∧ th.code ≠ [.runRunning a])
    (active : th.code ≠ [.runIdle]) :
    Turn a b k' := by
  have hself : k'.threads .sched = th := thread_of_cpu hk hcpu
  refine ⟨Nat.lt_of_lt_of_le turn.known grows, ?_, ?_, ?_⟩ <;> rw [hself]
  · exact current
  · exact picked
  · exact active

/-- The scheduler does not pick `a` while `b` waits. -/
theorem Turn.pick (turn : Turn a b k) (hab : a ≠ b) (waits : k.Waits a b)
    (fair : InTurn a b k .exec) (hnext : k.next = some .runPick)
    (hcode : (k.threads .sched).code = [.runPick]) : k.vars.pickNextReady ≠ some a := by
  intro hpick
  obtain ⟨cur, hidx, hlt, hcur⟩ := turn.current
  obtain rfl | between :=
    Globals.pickNextReady_between hpick hidx hlt turn.known hab waits.1 waits.2
  · cases hcode.symm.trans (hcur rfl)
  · exact fair (Or.inl ⟨rfl, hnext⟩) (Or.inl (Globals.pickNextReady_ready hpick).2) cur hidx between

theorem Turn.step_sched (turn : Turn a b k) (ctl : Controlled k) (hab : a ≠ b)
    (spares : SparesDispatch k act) (waits : k.Waits a b) (fair : InTurn a b k act)
    (hcpu : k.cpu = .sched) (h : Step k act k') (ready : (k'.vars.tasks b).state = .ready) :
    Turn a b k' := by
  have wf := ctl.wf
  have hcode : k.current.code = (k.threads .sched).code := by rw [Machine.current, hcpu]
  have others : ∀ {s rest}, k.current.code = s :: rest → s ≠ .runRunning b →
      ∃ cur, k.vars.currentIdx = some cur ∧ cur < k.vars.numTasks ∧ cur ≠ b := by
    intro s rest hc hs
    obtain ⟨cur, hidx, hlt, hcur⟩ := turn.current
    refine ⟨cur, hidx, hlt, fun h => hs ?_⟩
    have := hc.symm.trans (hcode.trans (hcur h))
    exact (List.cons.inj this).1
  have keep : ∀ {th : Thread} {cpu : Exec} {g : Globals} {s rest}, k.current.code = s :: rest →
      s ≠ .runRunning b → g.currentIdx = k.vars.currentIdx → g.numTasks = k.vars.numTasks →
      th.code ≠ [.runCurrent a] ∧ th.code ≠ [.runRunning a] → th.code ≠ [.runIdle] →
      Turn a b { k.setThread k.cpu th with vars := g, cpu := cpu } := by
    intro th cpu g s rest hc hs hidx hnum picked active
    obtain ⟨cur, hcur, hlt, hne⟩ := others hc hs
    exact turn.of_sched hcpu rfl (Nat.le_of_eq hnum.symm)
      ⟨cur, hidx.trans hcur, hnum ▸ hlt, fun h => absurd h hne⟩ picked active
  cases wf.schedStep hcpu h with
  | restoreMask hc | runBlock hc | runSwap hc =>
    exact keep hc (by simp) rfl rfl (by simp) (by simp)
  | @plain s rest succ g hc he =>
    have hpoint := wf.point hcpu hc
    have hexec := wf.schedExec hcpu hc he
    generalize succ ++ rest = code at hexec ready
    cases hexec with
    | active | noneReady | count | canary =>
      exact keep hc (by simp) rfl rfl (by simp) (by simp)
    | inactive inactive =>
      exact absurd (Globals.anyTaskActive_of_ready turn.known waits.1) inactive
    | @ready next hnext =>
      have hpick := turn.pick hab waits fair (next_eq hc) (hcode.symm.trans hc)
      refine keep hc (by simp) rfl rfl ⟨fun h => hpick ?_, by simp⟩ (by simp)
      obtain rfl : next = a := Stmt.runCurrent.inj (List.cons.inj h).1
      exact hnext
    | @current n =>
      refine turn.of_sched hcpu rfl (Nat.le_refl _) ⟨n, rfl, hpoint, fun h => by rw [h]⟩
        ⟨by simp, fun h => turn.picked.1 ?_⟩ (by simp)
      obtain rfl : n = a := Stmt.runRunning.inj (List.cons.inj h).1
      exact hcode.symm.trans hc
    | @running n =>
      have hne : n ≠ b := by
        rintro rfl
        simp at ready
      exact turn.of_sched hcpu rfl (Nat.le_refl _) ⟨n, hpoint.2, hpoint.1, fun h => absurd h hne⟩
        (by simp) (by simp)
    | idle => exact absurd (hcode.symm.trans hc) turn.active
  | tick hm =>
    have stays := ctl.dispatching.tick_stays hcpu spares hm
    have frame := k.vars.preemptHandler_frame
    have hcurrent := k.vars.preemptHandler_current
    rw [stays] at hcurrent
    rw [tick_of_stays stays]
    obtain ⟨cur, hidx, hlt, hcur⟩ := turn.current
    rw [← hcode] at hcur
    refine turn.of_sched hcpu k.threads_eq_update (Nat.le_of_eq frame.numTasks.symm)
      ⟨cur, Eq.trans hcurrent hidx, frame.numTasks ▸ hlt, hcur⟩ ?_ ?_ <;> rw [hcode]
    · exact turn.picked
    · exact turn.active

theorem dispatched_exec (ctl : Controlled k) {n : Nat} (h : k.dispatched .exec = some n) :
    k.cpu = .sched ∧ k.current.code = [.runRunning n] := by
  obtain ⟨s, hs, hn⟩ := Option.bind_eq_some_iff.mp h
  obtain ⟨rest, hc⟩ := List.head?_eq_some_iff.mp hs
  split at hn
  case h_2 => cases hn
  case h_1 n' =>
    cases hn
    have hcpu := ctl.wf.sched_of_isRun hc rfl
    obtain rfl := (ctl.wf.point hcpu hc).alone rfl nofun
    exact ⟨hcpu, hc⟩

theorem dispatched_tick {n : Nat} (h : k.dispatched .tick = some n) :
    ∃ cur g, k.vars.preemptHandler = (g, some (cur, n)) := by
  obtain ⟨pair, hpair, rfl⟩ := Option.map_eq_some_iff.mp h
  exact ⟨pair.1, k.vars.preemptHandler.1, Prod.ext rfl hpair⟩

theorem turn_of_dispatched (ctl : Controlled k) (hab : a ≠ b) (spares : SparesDispatch k act)
    (h : k.dispatched act = some a) (hstep : system.step k act = some k')
    (known : b < k'.vars.numTasks) : Turn a b k' := by
  cases act with
  | call => cases h
  | exec =>
    obtain ⟨hcpu, hc⟩ := dispatched_exec ctl h
    have hpoint := ctl.wf.point hcpu hc
    cases ctl.wf.schedStep hcpu (step_cases hstep) with
    | plain hc' he =>
      obtain ⟨rfl, rfl⟩ := List.cons.inj (hc.symm.trans hc')
      cases he
      have hcode : (k.advance (.runRunning a) (k.vars.setState a .running)
          ([.runBlock a] ++ [])).threads .sched = { k.current with code := [.runBlock a] } := by
        simp [hcpu, Stmt.heldAfter]
      refine ⟨known, ⟨a, hpoint.2, hpoint.1, fun h => absurd h hab⟩, ?_, ?_⟩ <;> rw [hcode]
      · exact ⟨nofun, nofun⟩
      · exact nofun
    | restoreMask hc' | runBlock hc' | runSwap hc' => cases hc.symm.trans hc'
  | tick =>
    obtain ⟨cur, g, hp⟩ := dispatched_tick h
    have hcurrent := k.vars.preemptHandler_current
    have frame := k.vars.preemptHandler_frame
    rw [hp] at hcurrent frame
    obtain ⟨-, hlt, hidx, -⟩ := hcurrent
    cases step_cases hstep with
    | tick hm =>
      cases hcpu : k.cpu with
      | sched =>
        have stays := ctl.dispatching.tick_stays hcpu spares hm
        rw [hp] at stays
        cases stays
      | task i =>
        have known' := known
        unfold tick at known' ⊢
        rw [hp] at known' ⊢
        exact ctl.wf.turn_of_task hcpu rfl known' ⟨a, hidx, frame.numTasks ▸ hlt, hab⟩

/-- What `preempt_handler` picks from when it switches. -/
theorem Turn.at_switch (turn : Turn a b k) (waits : k.Waits a b) {cur : Nat}
    (hidx : k.vars.currentIdx = some cur)
    (hrun : ((k.vars.ticked 0).tasks cur).state = .running) :
    let g := (k.vars.ticked 0).setState cur .ready
    cur ≠ b ∧ cur < g.numTasks ∧ b < g.numTasks ∧ (g.tasks b).state = .ready ∧
      ∀ i, (g.tasks i).priority = (k.vars.tasks i).priority := by
  have hb : b ≠ cur := by
    rintro rfl
    cases waits.1.symm.trans (Globals.ticked_running.mp hrun)
  have frame := Globals.handlerFrame_ticked k.vars 0
  obtain ⟨cur', hcur', hlt, -⟩ := turn.current
  obtain rfl := Option.some.inj (hidx.symm.trans hcur')
  refine ⟨Ne.symm hb, by simpa [frame.numTasks] using hlt,
    by simpa [frame.numTasks] using turn.known, ?_, fun i => ?_⟩
  · obtain hsame | ⟨-, -, hready⟩ := k.vars.ticked_state 0 b
    · simpa [hb, hsame] using waits.1
    · simpa [hb] using hready
  · rw [Globals.setState, Globals.modifyTask_field Task.priority rfl, frame.priority]

/-- The step does not dispatch `a` while `b` waits. -/
theorem Turn.not_dispatched (turn : Turn a b k) (ctl : Controlled k) (hab : a ≠ b)
    (waits : k.Waits a b) (fair : InTurn a b k act) : k.dispatched act ≠ some a := by
  intro h
  cases act with
  | call => cases h
  | exec =>
    obtain ⟨hcpu, hc⟩ := dispatched_exec ctl h
    rw [Machine.current, hcpu] at hc
    exact turn.picked.2 hc
  | tick =>
    obtain ⟨cur, g, hp⟩ := dispatched_tick h
    have due := Globals.switchDue_of_switches hp
    obtain ⟨n, -, h'⟩ | ⟨cur', -, -, h'⟩ | ⟨cur', next, hidx, hrun, hpick, h'⟩ :=
      k.vars.preemptHandler_cases
    · cases hp.symm.trans h'
    · cases hp.symm.trans h'
    · cases hp.symm.trans h'
      obtain ⟨hcb, hlt, hb, ready, priority⟩ := turn.at_switch waits hidx hrun
      obtain rfl | between := Globals.pickNextReady_between hpick hidx hlt hb hab ready
        (by rw [priority, priority, waits.2])
      · exact hcb rfl
      · have hreturns : (k.vars.tasks a).state = .ready ∨ Action.tick = .tick ∧ k.vars.Due a := by
          have ready := (Globals.pickNextReady_ready hpick).2
          by_cases hcur : a = cur
          · subst hcur
            exact absurd between (by unfold Between; omega)
          · have ready : ((k.vars.ticked 0).tasks a).state = .ready := by simpa [hcur] using ready
            obtain hsame | ⟨-, hdue, -⟩ := k.vars.ticked_state 0 a
            · exact Or.inl (hsame.symm.trans ready)
            · exact Or.inr ⟨rfl, hdue⟩
        exact fair (Or.inr ⟨rfl, due⟩) hreturns cur hidx between

/-- `a` keeps having had the last turn of the two. -/
theorem turn_along (c : Config) {k₀ k₁ k : Machine} {first : Action} (hab : a ≠ b)
    (start : system.Reach SparesDispatch c.start k₀) (spares : SparesDispatch k₀ first)
    (dispatch : k₀.dispatched first = some a) (step : system.step k₀ first = some k₁)
    (task : b < k₁.vars.numTasks)
    (path : system.Reach (fun k act => SparesDispatch k act ∧ k.Waits a b ∧ InTurn a b k act)
      k₁ k) :
    Controlled k ∧ ((k.vars.tasks b).state = .ready → Turn a b k) := by
  have ctl₀ := controlled_of_reach (fun _ _ hok => hok) start
  refine path.invariant
    (I := fun k => Controlled k ∧ ((k.vars.tasks b).state = .ready → Turn a b k))
    ⟨ctl₀.step spares step, fun _ => turn_of_dispatched ctl₀ hab spares dispatch step task⟩ ?_
  rintro s act t ⟨ctl, turn⟩ ⟨spares, waits, fair⟩ hstep
  refine ⟨ctl.step spares hstep, fun ready => ?_⟩
  cases hcpu : s.cpu with
  | sched =>
    exact (turn waits.1).step_sched ctl hab spares waits fair hcpu (step_cases hstep) ready
  | task i => exact (turn waits.1).step_task ctl.wf hcpu (step_cases hstep) ready

/-- In every run: once `a` has been dispatched, it is not dispatched again while `b` waits at the
same priority, as long as every pick in between is made in turn. -/
theorem equal_priority_turns (c : Config) {k₀ k₁ k : Machine} {first act : Action} {a b : Nat}
    (hab : a ≠ b) (start : system.Reach SparesDispatch c.start k₀)
    (spares : SparesDispatch k₀ first) (dispatch : k₀.dispatched first = some a)
    (step : system.step k₀ first = some k₁) (task : b < k₁.vars.numTasks)
    (path : system.Reach (fun k act => SparesDispatch k act ∧ k.Waits a b ∧ InTurn a b k act) k₁ k)
    (waits : k.Waits a b) (fair : InTurn a b k act) : k.dispatched act ≠ some a := by
  obtain ⟨ctl, turn⟩ := turn_along c hab start spares dispatch step task path
  exact (turn waits.1).not_dispatched ctl hab waits fair

/-- The first task, dispatched, yields, and the scheduler picks the second. -/
def yieldRun : List Action := script 3 [(.call .yield, 11)]

theorem equal_priority_turns_yield :
    ∃ k₀ k₁ k, system.Reach SparesDispatch Config.twoTasks.start k₀ ∧
      k₀.dispatched .exec = some 0 ∧ system.step k₀ .exec = some k₁ ∧
      system.Reach (fun k act => SparesDispatch k act ∧ k.Waits 0 1 ∧ InTurn 0 1 k act) k₁ k ∧
      k.next = some (.runRunning 1) ∧ k.dispatched .exec ≠ some 0 := by
  obtain ⟨k₀, hrun₀, hdispatch, k₁, hstep, htask, hpath⟩ : ∃ k₀,
      system.runGuarded SparesDispatch Config.twoTasks.start (script 3 []) = some k₀ ∧
      k₀.dispatched .exec = some 0 ∧ ∃ k₁ ∈ system.step k₀ .exec, 1 < k₁.vars.numTasks ∧
        (system.runGuarded (fun k act => SparesDispatch k act ∧ k.Waits 0 1 ∧ InTurn 0 1 k act)
          k₁ yieldRun).any (fun k => k.next = some (.runRunning 1) ∧ k.Waits 0 1 ∧
            InTurn 0 1 k .exec) = true :=
    System.exists_of_runGuarded (by decide +kernel)
  obtain ⟨k, hrun, hnext, hwaits, hfair⟩ := System.exists_of_runGuarded hpath
  have reach := System.reach_of_runGuarded hrun₀
  have path := System.reach_of_runGuarded hrun
  have spares : SparesDispatch k₀ .exec := fun h => by cases h
  exact ⟨k₀, k₁, k, reach, hdispatch, hstep, path, hnext, equal_priority_turns .twoTasks
    (by decide) reach spares hdispatch hstep htask path hwaits hfair⟩

/-- The first task, dispatched, wakes the high one and yields; the high task waits again. -/
def wakeRun : List Action :=
  script 3 [(.call (.post (.named 0)), 5), (.call .yield, 18), (.call (.wait (.named 0)), 14)]

/-- The first task is dispatched a second time while the second one has been READY all along: the
high task in between stands after the second task, and the scan starts over with the first. -/
theorem passed_over :
    ∃ k₀ k₁ k, system.Reach (fun _ a => Cooperative a) Config.lowLowHigh.start k₀ ∧
      k₀.dispatched .exec = some 0 ∧ system.step k₀ .exec = some k₁ ∧ 1 < k₁.vars.numTasks ∧
      system.Reach (fun k a => Cooperative a ∧ k.Waits 0 1 ∧ (k.vars.tasks 0).priority = 1) k₁ k ∧
      k.Waits 0 1 ∧ k.dispatched .exec = some 0 := by
  obtain ⟨k₀, hrun₀, hdispatch, k₁, hstep, htask, hpath⟩ : ∃ k₀,
      system.runGuarded (fun _ a => Cooperative a) Config.lowLowHigh.start
        (script 7 [(.call (.wait (.named 0)), 14)]) = some k₀ ∧
      k₀.dispatched .exec = some 0 ∧ ∃ k₁ ∈ system.step k₀ .exec, 1 < k₁.vars.numTasks ∧
        (system.runGuarded (fun k a => Cooperative a ∧ k.Waits 0 1 ∧ (k.vars.tasks 0).priority = 1)
          k₁ wakeRun).any (fun k => k.Waits 0 1 ∧ k.dispatched .exec = some 0) = true :=
    System.exists_of_runGuarded (by decide +kernel)
  obtain ⟨k, hrun, hwaits, hagain⟩ := System.exists_of_runGuarded hpath
  exact ⟨k₀, k₁, k, System.reach_of_runGuarded hrun₀, hdispatch, hstep, htask,
    System.reach_of_runGuarded hrun, hwaits, hagain⟩

/-! ## One priority -/

/-- Whoever is picked has the priority of `b`. -/
def PicksAlike (b : Nat) (k : Machine) : Action → Prop
  | .exec => k.next = some .runPick → ∀ n ∈ k.vars.pickNextReady,
      (k.vars.tasks n).priority = (k.vars.tasks b).priority
  | .tick => ∀ n ∈ k.dispatched .tick, (k.vars.tasks n).priority = (k.vars.tasks b).priority
  | .call _ => True

/-- The task dispatched last, and the one that `scheduler_run` has picked, do not stand after `b`
and before `a`. -/
structure Rotates (a b : Nat) (k : Machine) : Prop where
  current : ∀ h ∈ k.vars.currentIdx, ¬Between b h a
  picked : ∀ n, (k.threads .sched).code = [.runCurrent n] → ¬Between b n a

theorem Rotates.inTurn (h : Rotates a b k) (act : Action) : InTurn a b k act :=
  fun _ _ => h.current

theorem Rotates.tick (rot : Rotates a b k) (turn : Turn a b k) (hab : a ≠ b) (waits : k.Waits a b)
    (alike : PicksAlike b k .tick) : ∀ h ∈ k.tick.vars.currentIdx, ¬Between b h a := by
  rw [tick_global Globals.currentIdx fun _ _ _ => rfl]
  obtain ⟨n, -, h⟩ | ⟨cur, -, -, h⟩ | ⟨cur, next, hidx, hrun, hpick, h⟩ :=
    k.vars.preemptHandler_cases
  · rw [h]
    exact rot.current
  · rw [h]
    exact rot.current
  · have same := alike next (by rw [dispatched, h]; rfl)
    obtain ⟨hcb, hlt, hb, ready, priority⟩ := turn.at_switch waits hidx hrun
    rw [h]
    rintro _ ⟨rfl⟩
    exact Globals.pickNextReady_rotates hpick hidx hlt hb ready (by rw [priority, priority, same])
      hab hcb (rot.current cur hidx)

theorem Rotates.step_task (rot : Rotates a b k) (turn : Turn a b k) (wf : Wf k) (hab : a ≠ b)
    (waits : k.Waits a b) (alike : PicksAlike b k act) {i : Nat} (hcpu : k.cpu = .task i)
    (hstep : system.step k act = some k') : Rotates a b k' := by
  constructor
  · cases step_cases hstep with
    | @plain s rest succ g hh hc he =>
      have hlocal := wf.current_locals hcpu s (hc ▸ List.mem_cons_self)
      have hidx : g.currentIdx = k.vars.currentIdx := (Stmt.exec_frame hlocal.1 he).1
      show ∀ h ∈ g.currentIdx, ¬Between b h a
      rw [hidx]
      exact rot.current
    | tick => exact rot.tick turn hab waits alike
    | _ => exact rot.current
  · obtain ⟨th, hth, -⟩ := step_moves hstep
    rw [thread_other hth (sched_ne_cpu hcpu)]
    exact rot.picked

theorem Rotates.step_sched (rot : Rotates a b k) (turn : Turn a b k) (ctl : Controlled k)
    (hab : a ≠ b) (spares : SparesDispatch k act) (waits : k.Waits a b)
    (alike : PicksAlike b k act) (hcpu : k.cpu = .sched) (h : Step k act k') :
    Rotates a b k' := by
  have hcode : k.current.code = (k.threads .sched).code := by rw [Machine.current, hcpu]
  cases ctl.wf.schedStep hcpu h with
  | restoreMask hc | runBlock hc | runSwap hc => exact ⟨rot.current, by simp [hcpu]⟩
  | @plain s rest succ g hc he =>
    have hexec := ctl.wf.schedExec hcpu hc he
    generalize succ ++ rest = code at hexec
    cases hexec with
    | active | inactive | noneReady | running | count | canary =>
      exact ⟨rot.current, by simp [hcpu]⟩
    | @ready next hnext =>
      refine ⟨rot.current, fun n hn => ?_⟩
      obtain rfl : next = n := by simpa [hcpu] using hn
      obtain ⟨cur, hidx, hlt, hcur⟩ := turn.current
      refine Globals.pickNextReady_rotates hnext hidx hlt turn.known waits.1
        (alike (next_eq hc) next hnext) hab ?_ (rot.current cur hidx)
      rintro rfl
      cases (hcode.symm.trans hc).symm.trans (hcur rfl)
    | @current n =>
      refine ⟨?_, by simp [hcpu]⟩
      rintro _ ⟨rfl⟩
      exact rot.picked n (hcode.symm.trans hc)
    | idle => exact ⟨fun _ hnone => (by cases hnone), by simp [hcpu]⟩
  | tick hm =>
    refine ⟨rot.tick turn hab waits alike, ?_⟩
    rw [tick_of_stays (ctl.dispatching.tick_stays hcpu spares hm)]
    exact rot.picked

theorem rotates_of_dispatched (ctl : Controlled k) (spares : SparesDispatch k act)
    (h : k.dispatched act = some a) (hstep : system.step k act = some k') : Rotates a b k' := by
  have hself : ∀ h ∈ some a, ¬Between b h a := by
    rintro _ ⟨rfl⟩
    unfold Between
    omega
  cases act with
  | call => cases h
  | exec =>
    obtain ⟨hcpu, hc⟩ := dispatched_exec ctl h
    have hidx : k.vars.currentIdx = some a := (ctl.wf.point hcpu hc).2
    cases ctl.wf.schedStep hcpu (step_cases hstep) with
    | plain hc' he =>
      obtain ⟨rfl, rfl⟩ := List.cons.inj (hc.symm.trans hc')
      cases he
      refine ⟨?_, by simp [hcpu]⟩
      show ∀ h ∈ k.vars.currentIdx, ¬Between b h a
      rwa [hidx]
    | restoreMask hc' | runBlock hc' | runSwap hc' => cases hc.symm.trans hc'
  | tick =>
    obtain ⟨cur, g, hp⟩ := dispatched_tick h
    have hcurrent := k.vars.preemptHandler_current
    rw [hp] at hcurrent
    obtain ⟨-, -, hidx, -⟩ := hcurrent
    cases step_cases hstep with
    | tick hm =>
      constructor
      · rw [tick_global Globals.currentIdx fun _ _ _ => rfl, hp]
        exact hidx ▸ hself
      · cases hcpu : k.cpu with
        | sched =>
          have stays := ctl.dispatching.tick_stays hcpu spares hm
          rw [hp] at stays
          cases stays
        | task i =>
          obtain ⟨-, -, -, m, n, hwait⟩ := ctl.wf.running i hcpu
          obtain ⟨th, hth, -⟩ := step_moves hstep
          rw [thread_other hth (sched_ne_cpu hcpu), hwait]
          intro _ hcode
          cases hcode

/-- As long as only tasks of that priority are picked, every pick is made in turn. -/
theorem inTurn_of_alike (c : Config) {k₀ k₁ k : Machine} {first : Action} (hab : a ≠ b)
    (start : system.Reach SparesDispatch c.start k₀) (spares : SparesDispatch k₀ first)
    (dispatch : k₀.dispatched first = some a) (step : system.step k₀ first = some k₁)
    (task : b < k₁.vars.numTasks)
    (path : system.Reach (fun k act => SparesDispatch k act ∧ k.Waits a b ∧ PicksAlike b k act)
      k₁ k) :
    system.Reach (fun k act => SparesDispatch k act ∧ k.Waits a b ∧ InTurn a b k act) k₁ k ∧
      ∀ act, InTurn a b k act := by
  suffices h : system.Reach (fun k act => SparesDispatch k act ∧ k.Waits a b ∧ InTurn a b k act)
      k₁ k ∧ Rotates a b k from ⟨h.1, h.2.inTurn⟩
  induction path with
  | refl =>
    have ctl := controlled_of_reach (fun _ _ hok => hok) start
    exact ⟨.refl, rotates_of_dispatched ctl spares dispatch step⟩
  | @tail s t act _ hok hstep ih =>
    obtain ⟨path, rot⟩ := ih
    obtain ⟨spares', waits, alike⟩ := hok
    obtain ⟨ctl, turn⟩ := turn_along c hab start spares dispatch step task path
    refine ⟨path.tail ⟨spares', waits, rot.inTurn act⟩ hstep, ?_⟩
    cases hcpu : s.cpu with
    | sched =>
      exact rot.step_sched (turn waits.1) ctl hab spares' waits alike hcpu (step_cases hstep)
    | task i => exact rot.step_task (turn waits.1) ctl.wf hab waits alike hcpu hstep

/-- So tasks of one priority do share the processor among themselves. -/
theorem shares_alike (c : Config) {k₀ k₁ k : Machine} {first act : Action} (hab : a ≠ b)
    (start : system.Reach SparesDispatch c.start k₀) (spares : SparesDispatch k₀ first)
    (dispatch : k₀.dispatched first = some a) (step : system.step k₀ first = some k₁)
    (task : b < k₁.vars.numTasks)
    (path : system.Reach (fun k act => SparesDispatch k act ∧ k.Waits a b ∧ PicksAlike b k act)
      k₁ k) (waits : k.Waits a b) : k.dispatched act ≠ some a := by
  obtain ⟨path', fair⟩ := inTurn_of_alike c hab start spares dispatch step task path
  obtain ⟨ctl, turn⟩ := turn_along c hab start spares dispatch step task path'
  exact (turn waits.1).not_dispatched ctl hab waits (fair act)

end Machine

end RtosXrce.Kernel
