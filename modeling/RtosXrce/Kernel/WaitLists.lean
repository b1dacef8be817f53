import RtosXrce.Kernel.Dispatch
import RtosXrce.Kernel.LostWakeups

/-!
# A task in a waiter array waits

The wake loop of `mutex_unlock` and `sem_post` makes every task it finds in the array READY. No
reference in an array is stale: in the runs without a forced switch inside a wait or a wake loop,
a task in the array of an object is in the wait loop of that object, and BLOCKED until the wake
loop reaches it. A deadline in `wake_tick` belongs to a task that sleeps, never to one that waits.
-/

namespace RtosXrce.Kernel

open Library

theorem Waiters.mem_of_add {w : Waiters} {j t : Nat} (h : j ∈ w.add t) : j ∈ w ∨ j = t := by
  unfold Waiters.add at h
  split at h
  · exact Or.inl h
  · split at h
    · obtain ⟨p, hp, hslot⟩ := h
      by_cases hpn : p = w.num
      · subst hpn
        exact Or.inr (by simpa using hslot.symm)
      · refine Or.inl ⟨p, by dsimp only at hp; omega, by simpa [hpn] using hslot⟩
    · exact Or.inl h

namespace Stmt

variable {g g' : Globals} {s : Stmt} {succ : List Stmt} {o : Obj}

/-- The object whose waiter array has the execution's task, which is about to block. -/
def enrolled : Stmt → Option Obj
  | lockBlock m _ => some (.mutex m)
  | waitBlock s _ => some (.sem s)
  | _ => none

/-- The object whose waiters a wake loop has begun to wake. -/
def rouses : Stmt → Option Obj
  | wakeTest o i => if i = 0 then none else some o
  | wakeReady o _ | wakeClear o => some o
  | _ => none

theorem wakes_of_rouses (h : s.rouses = some o) : s.wakes = true := by
  cases s <;> simp_all [rouses, wakes]

theorem entersWait_of_enrolled (h : s.enrolled = some o) : s.entersWait = true := by
  cases s <;> first | rfl | cases h

/-- A statement changes the state of another task only by waking or dispatching it. -/
theorem exec_state_other (h : s.exec g = some (g', succ)) {j : Nat} (hj : j ∉ s.cur)
    (hlt : j < g.numTasks) (wake : ∀ o i, s = .wakeReady o i → (g.waiters o).slots i ≠ some j)
    (run : s ≠ .runRunning j) : (g'.tasks j).state = (g.tasks j).state := by
  obtain same | sets | ⟨-, rfl, -⟩ := exec_sets h j
  · exact same
  · cases s <;>
      simp only [Stmt.sets, Option.map_eq_some_iff, Option.some.injEq, Prod.mk.injEq,
        reduceCtorEq] at sets
    case terminate | yieldReady | sleepBlock | lockBlock | waitBlock =>
      exact absurd (congrArg some sets.1) hj
    case runRunning => exact absurd (congrArg runRunning sets.1) run
    case wakeReady o i =>
      obtain ⟨c, hc, rfl, -⟩ := sets
      exact absurd hc (wake o i rfl)
  · exact absurd hlt (Nat.lt_irrefl _)

/-- A wake loop goes on until it drops the array. -/
theorem exec_rouses (h : s.exec g = some (g', succ)) (hr : s.rouses = some o)
    (hs : s ≠ .wakeClear o) : ∃ s' ∈ succ.head?, s'.rouses = some o := by
  cases s <;> simp only [rouses, Option.some.injEq, reduceCtorEq] at hr
  case wakeTest o' i =>
    obtain ⟨hi, rfl⟩ : i ≠ 0 ∧ o' = o := by simpa using hr
    cases h
    split <;> exact ⟨_, rfl, rfl⟩
  case wakeReady o' i =>
    obtain ⟨t, -, hout⟩ := Option.map_eq_some_iff.mp h
    obtain ⟨-, rfl⟩ := Prod.mk.inj hout
    exact ⟨_, rfl, by simp [rouses, hr]⟩
  case wakeClear o' => exact absurd (hr ▸ rfl) hs

theorem exec_index (h : s.exec g = some (g', succ)) {i : Nat}
    (hs : succ.head? = some (.wakeReady o i)) : i < (g'.waiters o).num := by
  cases s <;>
    simp only [exec, Option.map_eq_some_iff, Option.some.injEq, Prod.mk.injEq, reduceCtorEq,
      Option.ite_none_right_eq_some] at h
  case wakeTest o' i' =>
    obtain ⟨rfl, rfl⟩ := h
    split at hs
    case isTrue hlt =>
      cases hs
      exact hlt
    case isFalse => cases hs
  all_goals first
    | (obtain ⟨-, rfl⟩ := h; cases hs)
    | (obtain ⟨-, rfl⟩ := h; split at hs <;> cases hs)
    | (obtain ⟨c, -, -, rfl⟩ := h; cases hs)

/-- `task_yield` makes a task READY only where it has found it RUNNING. -/
theorem exec_yieldReady (h : s.exec g = some (g', succ)) {c : Nat}
    (hs : succ.head? = some (.yieldReady c)) : (g'.tasks c).state = .running := by
  cases s <;>
    simp only [exec, Option.map_eq_some_iff, Option.some.injEq, Prod.mk.injEq, reduceCtorEq,
      Option.ite_none_right_eq_some] at h
  case yieldState c' =>
    obtain ⟨rfl, rfl⟩ := h
    split at hs
    case isTrue hrun =>
      cases hs
      exact hrun
    case isFalse => cases hs
  all_goals first
    | (obtain ⟨-, rfl⟩ := h; cases hs)
    | (obtain ⟨-, rfl⟩ := h; split at hs <;> cases hs)
    | (obtain ⟨c, -, -, rfl⟩ := h; cases hs)

theorem exec_enrols (h : s.exec g = some (g', succ)) {t : Nat} (ht : t ∈ g'.waiters o) :
    t ∈ g.waiters o ∧ s ≠ .wakeClear o ∨ t ∈ s.cur ∧ succ.head?.bind enrolled = some o := by
  by_cases hs : s.listsWaiters = false
  · rw [exec_waiters h hs] at ht
    refine Or.inl ⟨ht, ?_⟩
    rintro rfl
    cases hs
  · cases s <;> simp only [listsWaiters, not_true_eq_false, Bool.true_eq_false] at hs
    case lockAddWaiter m c | waitAddWaiter s c =>
      cases h
      rw [Globals.waiters_modifyWaiters] at ht
      split at ht
      case isTrue ho =>
        subst ho
        exact (Waiters.mem_of_add ht).imp (fun h => ⟨h, by simp⟩)
          fun h => ⟨congrArg some h.symm, rfl⟩
      case isFalse => exact Or.inl ⟨ht, by simp⟩
    case wakeClear o' =>
      cases h
      rw [Globals.waiters_modifyWaiters] at ht
      split at ht
      case isTrue =>
        obtain ⟨i, hi, -⟩ := ht
        exact absurd hi (Nat.not_lt_zero i)
      case isFalse ho => exact Or.inl ⟨ht, fun hs => ho (Stmt.wakeClear.inj hs).symm⟩

theorem exec_enrolled (h : s.exec g = some (g', succ)) (hs : s.enrolled = some o) :
    ∃ c w, s.cur = some c ∧ succ = [.yieldTest, w] ∧ w.awaits = some o ∧
      (g'.tasks c).state = .blocked := by
  cases s <;> simp only [enrolled, Option.some.injEq, reduceCtorEq] at hs
  case lockBlock m c | waitBlock s c =>
    cases h
    exact ⟨c, _, rfl, rfl, congrArg some hs, by simp⟩

theorem exec_spawned (h : s.exec g = some (g', succ)) {t : Nat} (old : g.numTasks ≤ t)
    (new : t < g'.numTasks) : ∃ p, g'.tasks t = Task.create t p := by
  cases exec_stores h with
  | spawn p =>
    unfold Globals.taskSpawn at new ⊢
    split at new
    case isTrue => omega
    case isFalse room =>
      obtain rfl : t = g.numTasks := by
        dsimp only at new
        omega
      exact ⟨p, by rw [if_neg room]; exact Function.update_self ..⟩
  | _ => exact absurd new (Nat.not_lt.mpr (by simpa using old))

/-- The statements of `task_yield` and of the wake loops that only a test leads to. -/
def tested : Stmt → Bool
  | yieldReady _ | wakeReady _ _ => true
  | _ => false

theorem tested_returnPoint (h : s.returnPoint = true) : s.tested = false := by
  cases s <;> first | rfl | cases h

theorem control_tested {b : Bool} (h : s.control b = some succ) :
    ∀ s' ∈ succ.head?, s'.tested = false := by
  unfold control at h
  split at h <;> cases h <;> rintro _ ⟨rfl⟩ <;> rfl

theorem Quiet.rouses (h : s.Quiet) : s.rouses = none :=
  Option.eq_none_iff_forall_ne_some.mpr fun o ho => by
    cases h.wakes.symm.trans (wakes_of_rouses ho)

theorem Quiet.enrolled (h : s.Quiet) : s.enrolled = none :=
  Option.eq_none_iff_forall_ne_some.mpr fun o ho => by
    cases h.entersWait.symm.trans (entersWait_of_enrolled ho)

end Stmt

theorem Op.code_tested (op : Op) : ∀ s ∈ op.code.head?, s.tested = false := by
  cases op <;> rintro _ ⟨rfl⟩ <;> rfl

/-- The code of a task in the wait loop of `o`, at or after the `task_yield` in it. -/
def InWait (o : Obj) (code : List Stmt) : Prop :=
  ∃ s w rest, code = s :: w :: rest ∧ (s.yields = true ∨ ∃ b, s = .restoreMask b) ∧
    w.awaits = some o

theorem InWait.awaited {o : Obj} {code : List Stmt} (h : InWait o code) :
    awaited code = some o := by
  obtain ⟨s, w, rest, rfl, -, hw⟩ := h
  exact hw

theorem InWait.step {o : Obj} {s s' : Stmt} {rest : List Stmt} (h : InWait o (s :: rest))
    (hs : s'.yields = true ∨ ∃ b, s' = .restoreMask b) : InWait o ([s'] ++ rest) := by
  obtain ⟨_, w, rest, hcode, -, hw⟩ := h
  obtain ⟨rfl, rfl⟩ := List.cons.inj hcode
  exact ⟨s', w, rest, rfl, hs, hw⟩

namespace Globals

variable {g g' : Globals}

theorem ticked_wakeTick {n i : Nat} (hb : (g.tasks i).state = .blocked)
    (hw : ((g.ticked n).tasks i).wakeTick ≠ 0) : ((g.ticked n).tasks i).state = .blocked := by
  simp only [ticked, updateTickBookkeeping] at hw ⊢
  split at hw
  case isFalse hlt => rwa [if_neg hlt]
  case isTrue hlt =>
    rw [if_pos hlt]
    simp only [tickTask, hb] at hw ⊢
    split at hw
    case isTrue => exact absurd rfl hw
    case isFalse late => rw [if_neg late, hb]

theorem ticked_dated {n i : Nat} (hw : ((g.ticked n).tasks i).wakeTick ≠ 0) :
    (g.tasks i).wakeTick ≠ 0 := by
  simp only [ticked, updateTickBookkeeping] at hw
  split at hw
  case isFalse => exact hw
  case isTrue =>
    unfold tickTask at hw
    split at hw
    case h_3 =>
      split at hw
      case isTrue => exact absurd rfl hw
      case isFalse => exact hw
    all_goals exact hw

/-- `preempt_handler` changes no more than the tick did in what it does not switch. -/
theorem preemptHandler_field {α : Type} (field : Task → α)
    (state : ∀ t st, field { t with state := st } = field t)
    (pending : ∀ t n, field { t with pendingPreemptions := n } = field t) (g : Globals) (i : Nat) :
    field (g.preemptHandler.1.tasks i) = field ((g.ticked 0).tasks i) := by
  obtain ⟨n, -, h⟩ | ⟨cur, -, -, h⟩ | ⟨cur, next, -, -, -, h⟩ := g.preemptHandler_cases
  · rw [h]
    rfl
  · rw [h]
    simp only [setState]
    rw [modifyTask_field field (state _ _), modifyTask_field field (state _ _)]
  · rw [h]
    simp only [switched, setState]
    rw [modifyTask_field field (pending _ _), modifyTask_field field (state _ _)]
    dsimp only
    rw [modifyTask_field field (state _ _)]

end Globals

namespace Machine

variable {k k' : Machine} {a : Action}

/-- A tick leaves a blocked task blocked that it does not wake. -/
theorem tick_blocked {j : Nat} (late : ((k.vars.ticked 0).tasks j).state = .blocked) :
    (k.tick.vars.tasks j).state = .blocked := by
  obtain ⟨hstate, -⟩ | ⟨cur, next, -, hrun, hpick, -, -, hstate⟩ := k.tick_state j
  · exact hstate.trans late
  · have hcur : j ≠ cur := by
      rintro rfl
      cases late.symm.trans (Globals.ticked_running.mpr hrun)
    have hnext : j ≠ next := by
      rintro rfl
      have hready := (Globals.pickNextReady_ready hpick).2
      rw [Globals.setState, Globals.modifyTask_of_ne hcur, late] at hready
      cases hready
    rw [hstate, if_neg hnext, if_neg hcur]
    exact late

theorem tick_field {α : Type} (field : Task → α)
    (state : ∀ t st, field { t with state := st } = field t)
    (pending : ∀ t n, field { t with pendingPreemptions := n } = field t)
    (context : ∀ t e, field { t with context := e } = field t) (k : Machine) (j : Nat) :
    field (k.tick.vars.tasks j) = field ((k.vars.ticked 0).tasks j) := by
  rw [← k.vars.preemptHandler_field field state pending]
  exact tick_global (fun g => field (g.tasks j))
    (fun _ _ _ => Globals.modifyTask_field field (context _ _) j) k

theorem tick_wakeTick (k : Machine) (j : Nat) :
    (k.tick.vars.tasks j).wakeTick = ((k.vars.ticked 0).tasks j).wakeTick :=
  tick_field Task.wakeTick (fun _ _ => rfl) (fun _ _ => rfl) (fun _ _ => rfl) k j

/-- The tick does not take the processor from an execution that has found a waiter to wake, or none
left. Unlike `SparesWake`, this rules out that the waiter it is about to make READY is no longer in
the array. -/
def SparesRouse (k : Machine) (a : Action) : Prop :=
  a = .tick → k.tick.cpu ≠ k.cpu → ∀ s ∈ k.next, s.wakes = false

instance (k : Machine) (a : Action) : Decidable (SparesRouse k a) :=
  inferInstanceAs (Decidable (_ → _ → _))

theorem SparesRouse.sparesWake (h : SparesRouse k a) : SparesWake k a :=
  fun ha hne s hs => Stmt.midWake_of_wakes (h ha hne s hs)

theorem Cooperative.sparesRouse (h : Cooperative a) (k : Machine) : SparesRouse k a :=
  fun ha => absurd ha h

/-- The execution that has the processor has begun to wake the waiters of `o`. -/
def Rousing (k : Machine) (o : Obj) : Prop := k.next.bind Stmt.rouses = some o

/-- Where the task `t` of the waiter array of `o` is. -/
def Enrolled (k : Machine) (o : Obj) (t : Nat) : Prop :=
  InWait o (k.threads (.task t)).code ∧ ((k.vars.tasks t).state = .blocked ∨ k.Rousing o) ∨
    k.cpu = .task t ∧ k.next.bind Stmt.enrolled = some o

structure Enlisted (k : Machine) : Prop where
  waits : ∀ o, ∀ t ∈ k.vars.waiters o, k.Enrolled o t
  index : ∀ o i, k.next = some (.wakeReady o i) → i < (k.vars.waiters o).num
  rouser : ∀ e o i, (k.threads e).code.head? = some (.wakeReady o i) → e = k.cpu
  deadline : ∀ t < k.vars.numTasks, (k.vars.tasks t).wakeTick ≠ 0 →
    (k.vars.tasks t).state = .blocked ∧ awaited (k.threads (.task t)).code = none ∨
      (k.threads (.task t)).code.head? = some (.sleepBlock t)
  awake : ∀ t, (k.threads (.task t)).code.head? = some (.yieldReady t) →
    (k.vars.tasks t).state ≠ .blocked

theorem enlisted_start (c : Config) : Enlisted c.start where
  waits o t := by
    rintro ⟨i, hi, -⟩
    cases o with
    | mutex m => cases m <;> exact absurd hi (Nat.not_lt_zero _)
    | sem s => cases s <;> exact absurd hi (Nat.not_lt_zero _)
  index o i h := by cases h
  rouser e o i h := by cases e <;> cases h
  deadline t _ h := absurd rfl h
  awake t h := by cases h

/-- A task in a wait loop does not sleep. -/
theorem Enlisted.undated (h : Enlisted k) {o : Obj} {t : Nat} (hlt : t < k.vars.numTasks)
    (hwait : InWait o (k.threads (.task t)).code) : (k.vars.tasks t).wakeTick = 0 := by
  by_contra hw
  obtain ⟨-, hnone⟩ | hsleep := h.deadline t hlt hw
  · rw [hwait.awaited] at hnone
    cases hnone
  · obtain ⟨s, w, rest, hc, hs, -⟩ := hwait
    rw [hc] at hsleep
    cases hsleep
    obtain hs | ⟨b, hs⟩ := hs <;> cases hs

/-- A registered task that has the processor is about to block or is in `task_yield`. -/
theorem Enlisted.self (h : Enlisted k) (att : Attended k) {o : Obj} {t : Nat}
    (hcpu : k.cpu = .task t) (ht : t ∈ k.vars.waiters o) :
    k.next.bind Stmt.enrolled = some o ∨
      InWait o k.current.code ∧ (k.vars.tasks t).state = .blocked ∧
        ∃ s ∈ k.next, s.yields = true := by
  obtain ⟨hwait, hstate⟩ | ⟨-, henrolled⟩ := h.waits o t ht
  case inr => exact Or.inl henrolled
  case inl =>
    have hcode : InWait o k.current.code := by
      rw [current, hcpu]
      exact hwait
    refine Or.inr ⟨hcode, ?_⟩
    have hb : (k.vars.tasks t).state = .blocked := by
      refine hstate.resolve_right fun hrouse => ?_
      obtain ⟨s, w, rest, hc, hs, -⟩ := hcode
      rw [Rousing, next_eq hc] at hrouse
      obtain hs | ⟨b, rfl⟩ := hs
      · cases s <;> cases hs <;> cases hrouse
      · cases hrouse
    exact ⟨hb, att.yields hcpu hb⟩

theorem Attended.lt_numTasks (att : Attended k) {o : Obj} {t : Nat} (ht : t ∈ k.vars.waiters o) :
    t < k.vars.numTasks := by
  obtain ⟨i, hi, hslot⟩ := ht
  obtain ⟨u, hu, hslot'⟩ := (att.slots o).known i hi
  rwa [Option.some.inj (hslot.symm.trans hslot')]

/-- A step that leaves its thread's code as it is. -/
theorem Enlisted.keep (h : Enlisted k) (att : Attended k) (frame : k.vars.Frame k'.vars)
    {th : Thread} (hk : k'.threads = Function.update k.threads k.cpu th)
    (code : th.code = k.current.code)
    (alone : ∀ s ∈ k.next, s.entersWait = true ∨ s.wakes = true → k'.cpu = k.cpu)
    (wake : ∀ j, (k.vars.tasks j).state = .blocked →
      (k.vars.tasks j).wakeTick = 0 ∨ (k'.vars.tasks j).wakeTick ≠ 0 →
      (k'.vars.tasks j).state = .blocked)
    (dated : ∀ j, (k'.vars.tasks j).wakeTick ≠ 0 → (k.vars.tasks j).wakeTick ≠ 0) :
    Enlisted k' := by
  have hcode : ∀ e, (k'.threads e).code = (k.threads e).code := by
    intro e
    by_cases he : e = k.cpu
    · rw [he, thread_self hk, code]
      rfl
    · rw [thread_other hk he]
  have hnext : k'.cpu = k.cpu → k'.next = k.next := fun hcpu => by
    rw [next, current, hcpu, hcode]
    rfl
  refine ⟨fun o t ht => ?_, fun o i hi => ?_, fun e o i hi => ?_, fun t hlt hw => ?_,
    fun t ht hb => ?_⟩
  · rw [frame.waiters] at ht
    obtain ⟨hwait, hstate⟩ | ⟨hcpu, henrolled⟩ := h.waits o t ht
    · refine Or.inl ⟨hcode _ ▸ hwait, ?_⟩
      obtain hb | hrouse := hstate
      · exact Or.inl (wake t hb (Or.inl (h.undated (att.lt_numTasks ht) hwait)))
      · obtain ⟨s, hs, hr⟩ := Option.bind_eq_some_iff.mp hrouse
        have hcpu := alone s hs (Or.inr (Stmt.wakes_of_rouses hr))
        exact Or.inr (by rwa [Rousing, hnext hcpu])
    · obtain ⟨s, hs, hr⟩ := Option.bind_eq_some_iff.mp henrolled
      have hcpu' := alone s hs (Or.inl (Stmt.entersWait_of_enrolled hr))
      exact Or.inr ⟨hcpu'.trans hcpu, by rwa [hnext hcpu']⟩
  · by_cases hcpu : k'.cpu = k.cpu
    · rw [hnext hcpu] at hi
      rw [frame.waiters]
      exact h.index o i hi
    · rw [next, current, hcode] at hi
      exact absurd (h.rouser _ o i hi) hcpu
  · rw [hcode] at hi
    obtain rfl := h.rouser e o i hi
    exact (alone _ hi (Or.inr rfl)).symm
  · rw [frame.numTasks] at hlt
    rw [hcode]
    refine (h.deadline t hlt (dated t hw)).imp_left fun hold => ?_
    exact ⟨wake t hold.1 (Or.inr hw), hold.2⟩
  · rw [hcode] at ht
    exact h.awake t ht (frame.blocked t hb)

/-- A step of `task_yield`, or one that belongs to no wait and no wake loop. -/
theorem Enlisted.move (h : Enlisted k) (att : Attended k) (frame : k.vars.Frame k'.vars)
    {th : Thread} (hk : k'.threads = Function.update k.threads k.cpu th)
    (state : ∀ i, (k'.vars.tasks i).state = (k.vars.tasks i).state) {s : Stmt} {rest : List Stmt}
    (hc : k.current.code = s :: rest) (rouses : s.rouses = none) (enrolled : s.enrolled = none)
    (sleeps : ∀ c, s ≠ .sleepBlock c)
    (yields : s.yields = true → ∃ s', th.code = [s'] ++ rest ∧
      (s'.yields = true ∨ ∃ b, s' = .restoreMask b))
    (tested : ∀ s' ∈ th.code.head?, s'.tested = false) : Enlisted k' := by
  have hother : ∀ {t}, k.cpu ≠ .task t → k'.threads (.task t) = k.threads (.task t) := fun ht =>
    thread_other hk (Ne.symm ht)
  have wakeTick : ∀ t, (k'.vars.tasks t).wakeTick = (k.vars.tasks t).wakeTick := fun t => by
    by_cases hb : (k.vars.tasks t).state = .blocked
    · exact frame.wakeTick t (Or.inr ((state t).trans hb))
    · exact frame.wakeTick t (Or.inl hb)
  have idle : ∀ e o i, (k'.threads e).code.head? ≠ some (.wakeReady o i) := by
    intro e o i hi
    by_cases he : e = k.cpu
    · rw [he, thread_self hk] at hi
      cases tested _ hi
    · rw [thread_other hk he] at hi
      exact he (h.rouser e o i hi)
  refine ⟨fun o t ht => ?_, fun o i hi => absurd hi (idle _ o i),
    fun e o i hi => absurd hi (idle e o i), fun t hlt hw => ?_, fun t ht hb => ?_⟩
  · rw [frame.waiters] at ht
    by_cases hcpu : k.cpu = .task t
    · obtain henrolled | ⟨hwait, hb, s', hs', hyield⟩ := h.self att hcpu ht
      · rw [next_eq hc, Option.bind_some, enrolled] at henrolled
        cases henrolled
      · obtain rfl := eq_of_next hc hs'
        obtain ⟨s'', hcode, hs''⟩ := yields hyield
        rw [hc] at hwait
        exact Or.inl ⟨by rw [thread_of_cpu hk hcpu, hcode]; exact hwait.step hs'',
          Or.inl ((state t).trans hb)⟩
    · obtain ⟨hwait, hstate⟩ | ⟨hcpu', -⟩ := h.waits o t ht
      · refine Or.inl ⟨by rwa [hother hcpu], Or.inl ((state t).trans (hstate.resolve_right ?_))⟩
        rw [Rousing, next_eq hc, Option.bind_some, rouses]
        exact nofun
      · exact absurd hcpu' hcpu
  · rw [frame.numTasks] at hlt
    rw [wakeTick] at hw
    rw [state]
    by_cases hcpu : k.cpu = .task t
    · have hold := h.deadline t hlt hw
      rw [code_of_cpu hcpu hc] at hold
      obtain ⟨hb, hnone⟩ | hsleep := hold
      · obtain ⟨s', hs', hyield⟩ := att.yields hcpu hb
        obtain rfl := eq_of_next hc hs'
        obtain ⟨s'', hcode, -⟩ := yields hyield
        rw [thread_of_cpu hk hcpu, hcode]
        exact Or.inl ⟨hb, hnone⟩
      · exact absurd (Option.some.inj hsleep) (sleeps t)
    · rw [hother hcpu]
      exact h.deadline t hlt hw
  · rw [state] at hb
    by_cases hcpu : k.cpu = .task t
    · rw [thread_of_cpu hk hcpu] at ht
      cases tested _ ht
    · rw [hother hcpu] at ht
      exact h.awake t ht hb

/-- The task that a wake loop finds is in the wait loop of its object. -/
theorem Enlisted.found (h : Enlisted k) {o : Obj} {i t : Nat} {rest : List Stmt}
    (hc : k.current.code = .wakeReady o i :: rest) (ht : (k.vars.waiters o).slots i = some t) :
    InWait o (k.threads (.task t)).code := by
  obtain ⟨hwait, -⟩ | ⟨-, henrolled⟩ := h.waits o t ⟨i, h.index o i (next_eq hc), ht⟩
  · exact hwait
  · rw [next_eq hc] at henrolled
    cases henrolled

/-- A plain statement changes the state of another task that is not READY only by waking it. -/
theorem Controlled.state_other (ctl : Controlled k) {s : Stmt} {rest succ : List Stmt}
    {g : Globals} (hc : k.current.code = s :: rest) (he : s.exec k.vars = some (g, succ)) {t : Nat}
    (hlt : t < k.vars.numTasks) (hcpu : k.cpu ≠ .task t)
    (hready : (k.vars.tasks t).state ≠ .ready)
    (wake : ∀ o i, s = .wakeReady o i → (k.vars.waiters o).slots i ≠ some t) :
    (g.tasks t).state = (k.vars.tasks t).state := by
  refine Stmt.exec_state_other he
    (fun hcur => hcpu (ctl.wf.exec_of_cur (next_eq hc) hcur)) hlt wake ?_
  rintro rfl
  have hsched := ctl.wf.sched_of_isRun hc rfl
  have ready := ctl.dispatching.sched hsched
  rw [code_of_cpu hsched hc] at ready
  exact hready ready.1

theorem Controlled.stays_blocked (ctl : Controlled k) {s : Stmt} {rest succ : List Stmt}
    {g : Globals} (hc : k.current.code = s :: rest) (he : s.exec k.vars = some (g, succ)) {t : Nat}
    (hlt : t < k.vars.numTasks) (hcpu : k.cpu ≠ .task t)
    (hb : (k.vars.tasks t).state = .blocked)
    (wake : ∀ o i, s = .wakeReady o i → (k.vars.waiters o).slots i ≠ some t) :
    (g.tasks t).state = .blocked :=
  (ctl.state_other hc he hlt hcpu (by rw [hb]; exact nofun) wake).trans hb

/-- A blocked task that has the processor stays blocked in `task_yield`. -/
theorem Enlisted.yielding (h : Enlisted k) (wf : Wf k) {s : Stmt} {rest succ : List Stmt}
    {g : Globals} (hc : k.current.code = s :: rest) (he : s.exec k.vars = some (g, succ)) {t : Nat}
    (ht : k.cpu = .task t) (hyield : s.yields = true) (hb : (k.vars.tasks t).state = .blocked) :
    (∃ s', succ = [s'] ∧ s'.yields = true) ∧ (g.tasks t).state = .blocked := by
  have hidx : k.vars.currentIdx ≠ none := by
    rw [(wf.running _ ht).2.1]
    exact nofun
  obtain ⟨hsucc, hsame | ⟨c, rfl, -⟩⟩ := Stmt.exec_yields he hyield hidx
  · exact ⟨hsucc, hsame ▸ hb⟩
  · obtain rfl := Exec.task.inj (ht.symm.trans (wf.exec_of_cur (next_eq hc) rfl))
    exact absurd hb (h.awake t (ht ▸ next_eq hc))

section Plain

variable {s : Stmt} {rest succ : List Stmt} {th : Thread}
  (hk : k'.threads = Function.update k.threads k.cpu th) (hc : k.current.code = s :: rest)
  (he : s.exec k.vars = some (k'.vars, succ)) (cpu : k'.cpu = k.cpu) (code : th.code = succ ++ rest)
include hk hc he cpu code

theorem Enlisted.plain_waits (h : Enlisted k) (att : Attended k) (ctl : Controlled k) {o : Obj}
    {t : Nat} (ht : t ∈ k'.vars.waiters o) : k'.Enrolled o t := by
  have hnext : k'.next = (succ ++ rest).head? := by rw [next_of_stays hk cpu, code]
  have hcur : ∀ c ∈ s.cur, k.cpu = .task c := fun c hs => ctl.wf.exec_of_cur (next_eq hc) hs
  obtain ⟨ht, hclear⟩ | ⟨hct, henrolled⟩ := Stmt.exec_enrols he ht
  case inr =>
    obtain ⟨s', hs', ho⟩ := Option.bind_eq_some_iff.mp henrolled
    refine Or.inr ⟨cpu.trans (hcur t hct), ?_⟩
    rw [hnext, head_append_of_some hs']
    exact ho
  case inl =>
    have rousing : s.rouses = some o → k'.Rousing o := by
      intro hr
      obtain ⟨s', hs', ho⟩ := Stmt.exec_rouses he hr hclear
      rw [Rousing, hnext, head_append_of_some hs']
      exact ho
    by_cases hcpu : k.cpu = .task t
    · refine Or.inl ?_
      rw [thread_of_cpu hk hcpu, code]
      obtain henrolled | ⟨hwait, hb, s', hs', hyield⟩ := h.self att hcpu ht
      · rw [next_eq hc] at henrolled
        obtain ⟨c, w, hcc, rfl, hw, hb⟩ := Stmt.exec_enrolled he henrolled
        obtain rfl := Exec.task.inj (hcpu.symm.trans (hcur c hcc))
        exact ⟨⟨.yieldTest, w, rest, rfl, Or.inl rfl, hw⟩, Or.inl hb⟩
      · obtain rfl := eq_of_next hc hs'
        obtain ⟨⟨s', rfl, hyield'⟩, hb'⟩ := h.yielding ctl.wf hc he hcpu hyield hb
        rw [hc] at hwait
        exact ⟨hwait.step (Or.inl hyield'), Or.inl hb'⟩
    · obtain ⟨hwait, hstate⟩ | ⟨hcpu', -⟩ := h.waits o t ht
      case inr => exact absurd hcpu' hcpu
      case inl =>
        refine Or.inl ⟨by rwa [thread_other hk (Ne.symm hcpu)], ?_⟩
        obtain hb | hrouse := hstate
        · by_cases wake : ∀ o i, s = .wakeReady o i → (k.vars.waiters o).slots i ≠ some t
          · exact Or.inl (ctl.stays_blocked hc he (att.lt_numTasks ht) hcpu hb wake)
          · push Not at wake
            obtain ⟨o', i, rfl, hslot⟩ := wake
            have hsame := (h.found hc hslot).awaited.symm.trans hwait.awaited
            exact Or.inr (rousing hsame)
        · rw [Rousing, next_eq hc] at hrouse
          exact Or.inr (rousing hrouse)

omit cpu in
theorem Enlisted.plain_deadline (h : Enlisted k) (att : Attended k) (ctl : Controlled k) {t : Nat}
    (hlt' : t < k'.vars.numTasks) (hw : (k'.vars.tasks t).wakeTick ≠ 0) :
    (k'.vars.tasks t).state = .blocked ∧ awaited (k'.threads (.task t)).code = none ∨
      (k'.threads (.task t)).code.head? = some (.sleepBlock t) := by
  have hself : k.cpu = .task t → (k'.threads (.task t)).code = succ ++ rest := fun ht => by
    rw [thread_of_cpu hk ht, code]
  by_cases hlt : t < k.vars.numTasks
  case neg =>
    obtain ⟨p, hp⟩ := Stmt.exec_spawned he (Nat.not_lt.mp hlt) hlt'
    rw [hp] at hw
    exact absurd rfl hw
  case pos =>
    by_cases hs : ∃ ms, s = .sleepWake t ms
    · obtain ⟨ms, rfl⟩ := hs
      obtain ⟨-, rfl⟩ := Prod.mk.inj (Option.some.inj he)
      refine Or.inr ?_
      rw [hself (ctl.wf.exec_of_cur (next_eq hc) rfl)]
      rfl
    · rw [Stmt.exec_wakeTick he hlt fun ms hms => hs ⟨ms, hms⟩] at hw
      have hold := h.deadline t hlt hw
      by_cases hcpu : k.cpu = .task t
      · rw [code_of_cpu hcpu hc] at hold
        rw [hself hcpu]
        obtain ⟨hb, hnone⟩ | hsleep := hold
        · obtain ⟨s', hs', hyield⟩ := att.yields hcpu hb
          obtain rfl := eq_of_next hc hs'
          obtain ⟨⟨s', rfl, -⟩, hb'⟩ := h.yielding ctl.wf hc he hcpu hyield hb
          exact Or.inl ⟨hb', hnone⟩
        · obtain rfl := Option.some.inj hsleep
          have hnone := (att.head k.cpu).sleeping _ (next_eq hc) rfl
          rw [code_of_cpu rfl hc] at hnone
          obtain ⟨hvars, rfl⟩ := Prod.mk.inj (Option.some.inj he)
          exact Or.inl ⟨by simp [← hvars], hnone⟩
      · rw [thread_other hk (Ne.symm hcpu)]
        refine hold.imp_left fun ⟨hb, hnone⟩ => ⟨?_, hnone⟩
        refine ctl.stays_blocked hc he hlt hcpu hb ?_
        rintro o i rfl hslot
        exact hw (h.undated hlt (h.found hc hslot))

theorem Enlisted.plain (h : Enlisted k) (att : Attended k) (ctl : Controlled k) : Enlisted k' := by
  refine ⟨fun o t ht => h.plain_waits hk hc he cpu code att ctl ht, fun o i hi => ?_,
    fun e o i hi => ?_, fun t hlt hw => h.plain_deadline hk hc he code att ctl hlt hw,
    fun t ht hb => ?_⟩
  · rw [next_of_stays hk cpu, code] at hi
    cases succ with
    | nil => cases ctl.stacked.rest hc _ (List.mem_of_head? hi)
    | cons => exact Stmt.exec_index he hi
  · by_contra hne
    have hother : e ≠ k.cpu := fun heq => hne (heq.trans cpu.symm)
    rw [thread_other hk hother] at hi
    exact hother (h.rouser e o i hi)
  · by_cases hcpu : k.cpu = .task t
    · rw [thread_of_cpu hk hcpu, code] at ht
      cases succ with
      | nil => cases ctl.stacked.rest hc _ (List.mem_of_head? ht)
      | cons => cases (Stmt.exec_yieldReady he ht).symm.trans hb
    · rw [thread_other hk (Ne.symm hcpu)] at ht
      have hct : t ∉ s.cur := fun hct => hcpu (ctl.wf.exec_of_cur (next_eq hc) hct)
      exact h.awake t ht (Stmt.exec_blocked he hct hb).1

end Plain

theorem Enlisted.step (h : Enlisted k) (att : Attended k) (ctl : Controlled k)
    (wait : SparesWait k a) (rouse : SparesRouse k a) (hstep : system.step k a = some k') :
    Enlisted k' := by
  obtain ⟨th, hth, moves⟩ := step_moves hstep
  cases moves with
  | resume frame cpu code _ state =>
    refine h.keep att frame hth code (fun _ _ _ => cpu) (fun j hb _ => (state j).trans hb) ?_
    intro j hw
    by_cases hb : (k.vars.tasks j).state = .blocked
    · rwa [frame.wakeTick j (Or.inr ((state j).trans hb))] at hw
    · rwa [frame.wakeTick j (Or.inl hb)] at hw
  | tick frame ticked code =>
    refine h.keep att frame hth code (fun s hs hcrit => ?_) (fun j hb hw => ?_) fun j hw => ?_
    · by_contra hne
      rw [ticked] at hne
      rw [wait rfl hne s hs, rouse rfl hne s hs] at hcrit
      simp at hcrit
    · rw [ticked, tick_wakeTick] at hw
      rw [ticked]
      refine tick_blocked ?_
      obtain hw | hw := hw
      · obtain hsame | ⟨-, due, -⟩ := k.vars.ticked_state 0 j
        · rw [hsame, hb]
        · exact absurd hw due.1
      · exact Globals.ticked_wakeTick hb hw
    · rw [ticked, tick_wakeTick] at hw
      exact Globals.ticked_dated hw
  | control frame hc hs _ code _ state =>
    have quiet := (Stmt.quiet_control hs).1
    refine h.move att frame hth state hc quiet.rouses quiet.enrolled ?_ (fun hyield => ?_) ?_
    · rintro c rfl
      cases quiet.sleeps
    · obtain ⟨s', rfl, hs'⟩ := Stmt.control_yields (k := k) hs hyield
      exact ⟨s', code, hs'.imp_right And.left⟩
    · rw [code]
      exact head_append (Stmt.control_tested hs) fun s' hs' =>
        Stmt.tested_returnPoint (ctl.stacked.rest hc s' hs')
  | exit frame hc _ code _ state =>
    refine h.move att frame hth state hc rfl rfl nofun nofun ?_
    rw [code]
    exact nofun
  | plain _ hc he cpu code => exact h.plain hth hc he cpu code att ctl
  | @call op rest frame _ hc code _ state =>
    refine h.move att frame hth state hc rfl rfl nofun nofun ?_
    rw [code]
    refine head_append op.code_tested fun s' hs' => ?_
    rcases List.mem_cons.mp hs' with rfl | hs'
    · rfl
    · exact Stmt.tested_returnPoint (ctl.stacked.rest hc s' hs')

theorem enlisted_of_reach {c : Config} {ok : Machine → Action → Prop}
    (spares : ∀ k a, ok k a → SparesDispatch k a ∧ SparesWait k a ∧ SparesRouse k a)
    (h : system.Reach ok c.start k) : Enlisted k :=
  h.invariant_with
    (fun _ h => And.intro (controlled_of_reach (fun k a hok => (spares k a hok).1) h)
      (attended_of_reach
        (fun _ h => (controlled_of_reach (fun k a hok => (spares k a hok).1) h).wf)
        (fun k a hok => (spares k a hok).2.imp_right SparesRouse.sparesWake) h))
    (enlisted_start c) fun k a _ ⟨ctl, att⟩ enl hok hstep =>
      enl.step att ctl (spares k a hok).2.1 (spares k a hok).2.2 hstep

end Machine

end RtosXrce.Kernel
