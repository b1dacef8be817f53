import Mathlib.Data.Finset.Max
import RtosXrce.Kernel.MutualExclusion
import RtosXrce.Kernel.Sleep

/-!
# Locks taken in order

Tasks that nest their mutexes in the order of some rank, unlock what they have locked and hold
nothing at their end do not block each other for good: as long as every blocked task waits for a
mutex, some task is READY, and `scheduler_run` does not spin in the branch in which it finds none.
-/

namespace RtosXrce.Kernel

open Library

/-- The mutex of a statement of `mutex_lock`. -/
def Stmt.acquires : Stmt → Option MutexId
  | lockCurrent m | lockTest m _ | lockCompare m _ | lockBoost m _ | lockAddWaiter m _
  | lockBlock m _ | lockTake m _ | lockOwn m _ | lockSave m _ => some m
  | _ => none

/-- The mutex that a call takes. -/
def Op.takes : Op → Option MutexId
  | lock m => some m
  | send q _ | receive q => some (.lockOf q)
  | _ => none

/-- Below a statement of `mutex_lock`, and below the task's own code, there is no other. -/
def Stmt.Above (s s' : Stmt) : Prop := s.acquires ≠ none ∨ s = .body → s'.acquires = none

namespace Stmt

variable {g g' : Globals} {s : Stmt} {succ : List Stmt}

/-- A statement of `mutex_lock` goes on in it, and the last one notes the mutex as held. -/
theorem exec_acquires (h : s.exec g = some (g', succ)) :
    succ.Pairwise Above ∧ (∀ s' ∈ succ, s'.acquires = none ∨ s'.acquires = s.acquires) ∧
      .body ∉ succ ∧ (s.acquires ≠ none → ∀ held : List MutexId,
        (∀ s' ∈ succ, s'.acquires = none) ∨ s.heldAfter held = held) := by
  cases s <;>
    simp only [exec, Option.map_eq_some_iff, Option.some.injEq, Prod.mk.injEq, reduceCtorEq,
      Option.ite_none_right_eq_some] at h
  all_goals first
    | obtain ⟨-, rfl⟩ := h
    | obtain ⟨c, -, -, rfl⟩ := h
  all_goals try split
  all_goals simp [Above, acquires, heldAfter]

theorem control_acquires {b : Bool} (h : s.control b = some succ) :
    s.acquires = none ∧ ∀ s' ∈ succ, s'.acquires = none ∧ s' ≠ .body := by
  unfold control at h
  split at h <;> cases h <;> simp [acquires]

theorem heldAfter_of_not_acquires (held : List MutexId) (hs : s.acquires = none) :
    ∀ m ∈ s.heldAfter held, m ∈ held := by
  cases s <;> simp_all [heldAfter, acquires]
  all_goals exact fun m hm => List.mem_of_mem_erase hm

end Stmt

theorem Op.code_acquires (op : Op) : op.code.Pairwise Stmt.Above ∧
    (∀ s ∈ op.code, s.acquires = none ∨ s.acquires = op.takes) ∧ .body ∉ op.code := by
  cases op <;> simp [code, Stmt.Above, Stmt.acquires, takes]

namespace Machine

variable {k k' : Machine} {a : Action} {rank : MutexId → Nat}

/-- A task asks for a mutex only while every mutex that it holds comes before it. -/
def LocksUpward (rank : MutexId → Nat) (k : Machine) : Action → Prop
  | .call op => ∀ m ∈ op.takes, ∀ m' ∈ k.current.held, rank m' < rank m
  | _ => True

instance (rank : MutexId → Nat) (k : Machine) : (a : Action) → Decidable (LocksUpward rank k a)
  | .call op => inferInstanceAs (Decidable (∀ m ∈ op.takes, _))
  | .exec | .tick => isTrue trivial

/-- A task that ends holds no mutex. -/
def EndsFree (k : Machine) (a : Action) : Prop :=
  a = .exec → k.current.handlers = [] → k.next = some .body → k.current.held = []

instance (k : Machine) (a : Action) : Decidable (EndsFree k a) :=
  inferInstanceAs (Decidable (_ → _ → _ → _))

/-- What a thread holds comes before what it asks for, and after its entry function has returned it
neither holds nor asks for any. -/
structure Orderly (rank : MutexId → Nat) (th : Thread) : Prop where
  above : th.code.Pairwise Stmt.Above
  upward : ∀ s ∈ th.code, ∀ m ∈ s.acquires, ∀ m' ∈ th.held, rank m' < rank m
  unheld : .body ∉ th.code → th.held = [] ∧ ∀ s ∈ th.code, s.acquires = none

theorem orderly_start (c : Config) (e : Exec) : Orderly rank (c.start.threads e) := by
  cases e <;> refine ⟨?_, ?_, ?_⟩ <;>
    simp [Config.start, Thread.trampoline, Stmt.Above, Stmt.acquires]

/-- A thread that goes on in its own code. -/
theorem Orderly.goes_on {th th' : Thread} (h : Orderly rank th) {s : Stmt}
    {rest succ : List Stmt} (hc : th.code = s :: rest) (hs : s ≠ .body)
    (code : th'.code = succ ++ rest) (above : succ.Pairwise Stmt.Above)
    (hsucc : ∀ s' ∈ succ, (s'.acquires = none ∨ s'.acquires = s.acquires) ∧ s' ≠ .body)
    (drops : s.acquires = none → ∀ m ∈ th'.held, m ∈ th.held)
    (saves : s.acquires ≠ none → (∀ s' ∈ succ, s'.acquires = none) ∨ th'.held = th.held) :
    Orderly rank th' := by
  obtain ⟨hrest, hpairs⟩ := List.pairwise_cons.mp (hc ▸ h.above)
  have hself : s ∈ th.code := hc ▸ List.mem_cons_self
  have hlater : ∀ s' ∈ rest, s' ∈ th.code := fun s' hs' => hc ▸ List.mem_cons_of_mem _ hs'
  refine ⟨?_, fun s' hs' m hm m' hm' => ?_, fun hnone => ?_⟩
  · rw [code]
    refine List.pairwise_append.mpr ⟨above, hpairs, fun s₁ hs₁ s₂ hs₂ h₁ => ?_⟩
    obtain ⟨hask, hbody⟩ := hsucc s₁ hs₁
    refine hrest s₂ hs₂ (Or.inl fun hnone => ?_)
    rcases hask with hask | hask
    · exact h₁.elim (absurd hask) hbody
    · exact h₁.elim (absurd (hask.trans hnone)) hbody
  · rw [code, List.mem_append] at hs'
    by_cases hne : s.acquires = none
    · rcases hs' with hs' | hs'
      · rcases (hsucc s' hs').1 with hask | hask
        · cases hask.symm.trans hm
        · cases (hask.trans hne).symm.trans hm
      · exact h.upward s' (hlater s' hs') m hm m' (drops hne m' hm')
    · rcases hs' with hs' | hs'
      · rcases saves hne with hnone | hsame
        · cases (hnone s' hs').symm.trans hm
        · rcases (hsucc s' hs').1 with hask | hask
          · cases hask.symm.trans hm
          · exact h.upward s hself m (hask ▸ hm) m' (hsame ▸ hm')
      · cases (hrest s' hs' (Or.inl hne)).symm.trans hm
  · have hold : .body ∉ th.code := by
      rw [hc, List.mem_cons]
      rintro (hin | hin)
      · exact hs hin.symm
      · exact hnone (code ▸ List.mem_append_right succ hin)
    obtain ⟨hheld, hfree⟩ := h.unheld hold
    refine ⟨List.eq_nil_iff_forall_not_mem.mpr fun m hm => ?_, fun s' hs' => ?_⟩
    · have hm := drops (hfree s hself) m hm
      rw [hheld] at hm
      cases hm
    · rw [code, List.mem_append] at hs'
      rcases hs' with hs' | hs'
      · exact (hsucc s' hs').1.elim id fun hask => hask.trans (hfree s hself)
      · exact hfree s' (hlater s' hs')

theorem Orderly.of_same {th th' : Thread} (h : Orderly rank th) (code : th'.code = th.code)
    (held : th'.held = th.held) : Orderly rank th' :=
  ⟨code ▸ h.above, code ▸ held ▸ h.upward, code ▸ held ▸ h.unheld⟩

/-- The entry function returns. -/
theorem Orderly.returns {th th' : Thread} (h : Orderly rank th) {rest : List Stmt}
    (hc : th.code = .body :: rest) (free : th.held = []) (code : th'.code = rest)
    (held : th'.held = th.held) : Orderly rank th' := by
  obtain ⟨hrest, hpairs⟩ := List.pairwise_cons.mp (hc ▸ h.above)
  have hnone : ∀ s ∈ rest, s.acquires = none := fun s hs => hrest s hs (Or.inr rfl)
  refine ⟨code ▸ hpairs, fun s hs m hm => ?_, fun _ => ⟨held.trans free, code ▸ hnone⟩⟩
  rw [hnone s (code ▸ hs)] at hm
  cases hm

theorem Orderly.call {th th' : Thread} (h : Orderly rank th) {op : Op} {rest : List Stmt}
    (hc : th.code = .body :: rest) (order : ∀ m ∈ op.takes, ∀ m' ∈ th.held, rank m' < rank m)
    (code : th'.code = op.code ++ .body :: rest) (held : th'.held = th.held) :
    Orderly rank th' := by
  obtain ⟨habove, htakes, hbody⟩ := op.code_acquires
  obtain ⟨hrest, -⟩ := List.pairwise_cons.mp (hc ▸ h.above)
  have hnone : ∀ s ∈ Stmt.body :: rest, s.acquires = none := by
    intro s hs
    rcases List.mem_cons.mp hs with rfl | hs
    · rfl
    · exact hrest s hs (Or.inr rfl)
  refine ⟨?_, ?_, fun hover => absurd (by rw [code]; simp) hover⟩
  · rw [code]
    exact List.pairwise_append.mpr ⟨habove, hc ▸ h.above, fun _ _ s hs _ => hnone s hs⟩
  · intro s hs m hm m' hm'
    rw [code, List.mem_append] at hs
    rw [held] at hm'
    rcases hs with hs | hs
    · rcases htakes s hs with h₁ | h₁
      · rw [h₁] at hm
        cases hm
      · exact order m (h₁ ▸ hm) m' hm'
    · rw [hnone s hs] at hm
      cases hm

/-- The entry function returns when no interrupted handler is on top. -/
theorem handlers_of_returns {th : Thread} (hk : k'.threads = Function.update k.threads k.cpu th)
    {s : Stmt} {rest : List Stmt} (hc : k.current.code = s :: rest) (code : th.code = rest)
    (hstep : system.step k .exec = some k') : k.current.handlers = [] := by
  cases hh : k.current.handlers with
  | nil => rfl
  | cons cur handlers =>
    simp only [system, step, hh, Option.some.injEq] at hstep
    have hself := thread_self hk
    rw [← hstep, handlerReturn_threads, setThread_threads, Function.update_self] at hself
    have hlong : s :: rest = rest := hc.symm.trans ((congrArg Thread.code hself).trans code)
    exact absurd (congrArg List.length hlong) (by simp)

theorem Orderly.step (h : ∀ e, Orderly rank (k.threads e)) (ctl : Controlled k)
    (order : LocksUpward rank k a) (free : EndsFree k a) (hstep : system.step k a = some k')
    (e : Exec) : Orderly rank (k'.threads e) := by
  obtain ⟨th, hth, moves⟩ := step_moves hstep
  suffices hself : Orderly rank th from
    forall_threads hth (P := Orderly rank) (fun e _ => h e) hself e
  have hcurrent : Orderly rank k.current := h k.cpu
  cases moves with
  | resume _ _ code held => exact hcurrent.of_same code held
  | tick _ _ code held => exact hcurrent.of_same code held
  | @control s rest succ _ hc hs _ code held =>
    by_cases hbody : s = .body
    · subst hbody
      obtain rfl : [] = succ := by simpa [Stmt.control] using hs
      have hquiet : k.current.handlers = [] := handlers_of_returns hth hc code hstep
      exact hcurrent.returns hc (free rfl hquiet (next_eq hc)) code held
    · obtain ⟨hnone, hsucc⟩ := Stmt.control_acquires hs
      refine hcurrent.goes_on hc hbody code ?_ (fun s' hs' => ?_) (fun _ m hm => held ▸ hm)
        fun hne => absurd hnone hne
      · exact List.pairwise_of_forall_mem_list fun _ _ s₂ hs₂ _ => (hsucc s₂ hs₂).1
      · exact ⟨Or.inl (hsucc s' hs').1, (hsucc s' hs').2⟩
  | @exit rest _ hc _ code held =>
    obtain ⟨i, hcpu⟩ : ∃ i, k.cpu = .task i := by
      cases hcpu : k.cpu with
      | sched => exact absurd hcpu (ctl.wf.cpu_ne_sched hc rfl nofun)
      | task i => exact ⟨i, rfl⟩
    have hends := ctl.dispatching.ends i
    rw [code_of_cpu hcpu hc] at hends
    obtain rfl : rest = [] := by
      obtain ⟨-, hnil⟩ | ⟨hs, -⟩ := hends.of_ends rfl
      · exact hnil
      · cases hs
    obtain ⟨hheld, -⟩ := hcurrent.unheld (by simp [hc])
    refine ⟨code ▸ .nil, fun s hs => ?_, fun _ => ⟨held.trans hheld, fun s hs => ?_⟩⟩
    all_goals
      rw [code] at hs
      cases hs
  | @plain s rest succ hh hc he _ code held =>
    obtain ⟨habove, hsucc, hbody, hsaves⟩ := Stmt.exec_acquires he
    refine hcurrent.goes_on hc (fun hs => ?_) code habove (fun s' hs' => ?_)
      (fun hnone m hm => ?_) fun hne => ?_
    · subst hs
      cases he
    · exact ⟨hsucc s' hs', fun hs => hbody (hs ▸ hs')⟩
    · exact Stmt.heldAfter_of_not_acquires _ hnone m (held ▸ hm)
    · rw [held]
      exact hsaves hne k.current.held
  | call _ _ hc code held => exact hcurrent.call hc order code held

/-- The thread of a task that has not been spawned is as `task_create` would leave it. -/
def Unspawned (k : Machine) : Prop :=
  ∀ i, k.vars.numTasks ≤ i → k.threads (.task i) = .trampoline i

theorem Unspawned.step (h : Unspawned k) (wf : Wf k) (hstep : system.step k a = some k') :
    Unspawned k' := by
  obtain ⟨th, hth, -⟩ := step_moves hstep
  intro i hi
  have hold : k.vars.numTasks ≤ i := (wf.step_numTasks hstep).trans hi
  have hcpu : Exec.task i ≠ k.cpu := fun hcpu =>
    absurd (wf.running i hcpu.symm).1 (Nat.not_lt.mpr hold)
  rw [thread_other hth hcpu]
  exact h i hold

/-- The tasks of a run use the mutexes well: each unlocks what it has locked, locks in the order of
`rank` and ends without a mutex; and the ticks fall between the kernel's events. -/
structure Disciplined (rank : MutexId → Nat) (k : Machine) (a : Action) : Prop where
  lands : LandsBetween k a
  take : SparesTake k a
  own : UnlocksOwn k a
  upward : LocksUpward rank k a
  free : EndsFree k a

instance (rank : MutexId → Nat) (k : Machine) (a : Action) : Decidable (Disciplined rank k a) :=
  decidable_of_iff (LandsBetween k a ∧ SparesTake k a ∧ UnlocksOwn k a ∧ LocksUpward rank k a ∧
    EndsFree k a) ⟨fun ⟨h₁, h₂, h₃, h₄, h₅⟩ => ⟨h₁, h₂, h₃, h₄, h₅⟩,
      fun h => ⟨h.lands, h.take, h.own, h.upward, h.free⟩⟩

/-- What is known of the disciplined runs. -/
structure Nested (rank : MutexId → Nat) (k : Machine) : Prop where
  ctl : Controlled k
  att : Attended k
  states : States k
  unspawned : Unspawned k
  exclusive : ∀ m, Exclusive m k
  orderly : ∀ e, Orderly rank (k.threads e)

theorem nested_of_reach {c : Config} (h : system.Reach (Disciplined rank) c.start k) :
    Nested rank k := by
  have start : Nested rank c.start :=
    { ctl := ⟨wf_start c, stacked_start c, dispatching_start c⟩
      att := attended_start c
      states := states_start c
      unspawned := fun _ _ => rfl
      exclusive := exclusive_start c
      orderly := orderly_start c }
  refine h.invariant start fun k a k' inv hok hstep => ?_
  obtain ⟨dispatch, wait, rouse⟩ := hok.lands.spares
  exact
    { ctl := inv.ctl.step dispatch hstep
      att := inv.att.step inv.ctl.wf inv.ctl.stacked wait rouse.sparesWake hstep
      states := inv.states.step inv.ctl hstep
      unspawned := inv.unspawned.step inv.ctl.wf hstep
      exclusive := fun m => (inv.exclusive m).step inv.ctl.stacked hok.own hok.take hstep
      orderly := Orderly.step inv.orderly inv.ctl hok.upward hok.free hstep }

theorem SchedPoint.apart {g : Globals} {code : List Stmt} (h : SchedPoint g code) :
    ∀ s ∈ code, s ≠ .body ∧ s.releases = none ∧ ∀ m, s.holds m = 0 := by
  unfold SchedPoint at h
  split at h <;> simp_all [Stmt.releases, Stmt.holds]

/-- `scheduler_run` holds no mutex. -/
theorem Nested.holds_sched (inv : Nested rank k) (m : MutexId) :
    (k.threads .sched).holds m = 0 := by
  have hapart := inv.ctl.wf.sched.apart
  obtain ⟨hheld, -⟩ := (inv.orderly .sched).unheld fun hbody => (hapart _ hbody).1 rfl
  have hsum : ((k.threads .sched).code.map (Stmt.holds m)).sum = 0 := by
    rw [List.sum_eq_zero_iff_forall_eq_nat]
    intro n hn
    obtain ⟨s, hs, rfl⟩ := List.mem_map.mp hn
    exact (hapart s hs).2.2 m
  rw [Thread.holds, hsum, hheld, List.count_nil]

/-- A locked mutex is held by a task that is registered and has not ended. -/
theorem Nested.holder (inv : Nested rank k) {m : MutexId}
    (locked : (k.vars.mutexes m).locked = true) :
    ∃ j < k.vars.numTasks, (k.vars.tasks j).state ≠ .terminated ∧
      (k.threads (.task j)).holds m = 1 := by
  obtain ⟨o, one⟩ := (inv.exclusive m).one
  have howner : (k.threads o).holds m = 1 := by rw [one, if_pos ⟨locked, rfl⟩]
  cases o with
  | sched =>
    rw [inv.holds_sched] at howner
    cases howner
  | task j =>
    refine ⟨j, ?_, fun ended => ?_, howner⟩
    · by_contra hge
      rw [inv.unspawned j (Nat.not_lt.mp hge)] at howner
      cases howner
    · have hover := (inv.orderly (.task j)).unheld
      obtain hcode | hcode := inv.states.ended j ended <;>
        simp_all [Thread.holds, Stmt.holds]

/-- What a blocked task holds comes before the mutex that it waits for. -/
theorem Nested.upward (inv : Nested rank k) {j : Nat} {m m' : MutexId}
    (blocked : (k.vars.tasks j).state = .blocked)
    (hawaits : awaited (k.threads (.task j)).code = some (.mutex m'))
    (holds : (k.threads (.task j)).holds m = 1) : rank m < rank m' := by
  obtain ⟨s, hs, hpark⟩ := inv.att.parked j blocked
  obtain ⟨rest, hcode⟩ := List.head?_eq_some_iff.mp hs
  have hstacked := inv.ctl.stacked (.task j)
  rw [hcode, List.tail_cons] at hstacked
  rw [hcode] at hawaits
  have hhead : s.holds m = 0 := by
    obtain hyield | ⟨⟨b, rfl⟩, -⟩ := hpark
    · cases s <;> cases hyield <;> rfl
    · rfl
  have hheld : m ∈ (k.threads (.task j)).held := by
    rw [Thread.holds, hcode, List.map_cons, List.sum_cons, hhead,
      holds_sum_returnPoints hstacked] at holds
    exact List.count_pos_iff.mp (by omega)
  obtain ⟨s', hs', hawaits⟩ := Option.bind_eq_some_iff.mp hawaits
  have hmem : s' ∈ (k.threads (.task j)).code :=
    hcode ▸ List.mem_cons_of_mem _ (List.mem_of_head? hs')
  refine (inv.orderly (.task j)).upward s' hmem m' ?_ m hheld
  cases s' <;> cases hawaits
  rfl

/-- When no task runs, a mutex that is waited for is locked. -/
theorem Nested.locked (inv : Nested rank k) {i : Nat} {m : MutexId}
    (idle : ∀ j < k.vars.numTasks, (k.vars.tasks j).state = .blocked ∨
      (k.vars.tasks j).state = .terminated)
    (blocked : (k.vars.tasks i).state = .blocked)
    (hawaits : awaited (k.threads (.task i)).code = some (.mutex m)) :
    (k.vars.mutexes m).locked = true := by
  have support := inv.att.supported i blocked
  rw [Supported, hawaits] at support
  refine support.2.resolve_right ?_
  -- nobody is in the middle of a release
  rintro ⟨e, s, hs, hreleases⟩
  cases e with
  | sched =>
    obtain ⟨-, hnone, -⟩ := inv.ctl.wf.sched.apart s (List.mem_of_head? hs)
    cases hnone.symm.trans hreleases
  | task j =>
    by_cases hj : j < k.vars.numTasks
    · obtain hblocked | hended := idle j hj
      · obtain ⟨s', hs', hpark⟩ := inv.att.parked j hblocked
        obtain rfl := Option.some.inj (hs.symm.trans hs')
        obtain hyield | ⟨⟨b, rfl⟩, -⟩ := hpark
        · cases s <;> cases hyield <;> cases hreleases
        · cases hreleases
      · obtain hcode | hcode := inv.states.ended j hended
        all_goals
          rw [hcode] at hs
          cases hs
        cases hreleases
    · rw [inv.unspawned j (Nat.not_lt.mp hj)] at hs
      cases hs
      cases hreleases

/-- No deadlock. When `scheduler_run` looks for a task, some task has not ended and every BLOCKED
one waits for a mutex, then there is a READY task. -/
theorem lock_order_no_deadlock (c : Config) (h : system.Reach (Disciplined rank) c.start k)
    (picks : k.next = some .runPick) (active : k.vars.anyTaskActive = true)
    (waits : ∀ i < k.vars.numTasks, (k.vars.tasks i).state = .blocked →
      ∃ m, awaited (k.threads (.task i)).code = some (.mutex m)) :
    ∃ i < k.vars.numTasks, (k.vars.tasks i).state = .ready := by
  have inv := nested_of_reach h
  by_contra none
  push Not at none
  have hcpu : k.cpu = .sched := by
    obtain ⟨rest, hcode⟩ := List.head?_eq_some_iff.mp picks
    exact inv.ctl.wf.sched_of_isRun hcode rfl
  have idle : ∀ j < k.vars.numTasks, (k.vars.tasks j).state = .blocked ∨
      (k.vars.tasks j).state = .terminated := by
    intro j hj
    cases hstate : (k.vars.tasks j).state with
    | ready => exact absurd hstate (none j hj)
    | running =>
      have hpoint := inv.ctl.dispatching.sched hcpu
      have hnext : (k.threads .sched).code.head? = some .runPick := by
        rw [← hcpu]
        exact picks
      obtain ⟨rest, hcode⟩ := List.head?_eq_some_iff.mp hnext
      rw [hcode] at hpoint
      exact absurd hstate (hpoint j (inv.states.one j hj hstate))
    | blocked => exact Or.inl rfl
    | terminated => exact Or.inr rfl
  obtain ⟨i, hi, hactive⟩ := List.any_eq_true.mp active
  -- of the blocked tasks, one that waits for a mutex of the highest rank
  let wait (j : Nat) : Nat := match awaited (k.threads (.task j)).code with
    | some (.mutex m) => rank m
    | _ => 0
  let waiters := (Finset.range k.vars.numTasks).filter fun j => (k.vars.tasks j).state = .blocked
  have hwaiters : waiters.Nonempty := by
    refine ⟨i, Finset.mem_filter.mpr ⟨by simpa using hi, ?_⟩⟩
    exact (idle i (by simpa using hi)).resolve_right (by simpa using hactive)
  obtain ⟨j, hj, highest⟩ := waiters.exists_max_image wait hwaiters
  obtain ⟨hlt, hblocked⟩ := Finset.mem_filter.mp hj
  obtain ⟨m, hm⟩ := waits j (Finset.mem_range.mp hlt) hblocked
  obtain ⟨j', hlt', halive, hholds⟩ := inv.holder (inv.locked idle hblocked hm)
  have hblocked' := (idle j' hlt').resolve_right halive
  obtain ⟨m', hm'⟩ := waits j' hlt' hblocked'
  have hup : rank m < rank m' := inv.upward hblocked' hm' hholds
  have hmax := highest j' (Finset.mem_filter.mpr ⟨Finset.mem_range.mpr hlt', hblocked'⟩)
  simp only [wait, hm, hm'] at hmax
  omega

/-- A mutex's place in the order is its number. -/
def byNumber : MutexId → Nat
  | .named n | .lockOf n => n

/-- The first task takes two mutexes and yields; the second blocks on the first of them. -/
def nestedRun : List Action :=
  script 7 [(.call (.lock (.named 0)), 5), (.call (.lock (.named 1)), 5), (.call .yield, 15),
    (.call (.lock (.named 0)), 13)]

theorem lock_order_no_deadlock_nested :
    ∃ k, system.runGuarded (Disciplined byNumber) Config.twoTasks.start nestedRun = some k ∧
      (k.vars.tasks 1).state = .blocked ∧
      ∃ i < k.vars.numTasks, (k.vars.tasks i).state = .ready := by
  obtain ⟨k, hrun, hpicks, hactive, hblocked, hwaits⟩ : ∃ k, system.runGuarded
      (Disciplined byNumber) Config.twoTasks.start nestedRun = some k ∧
      k.next = some .runPick ∧ k.vars.anyTaskActive = true ∧
      (k.vars.tasks 1).state = .blocked ∧
      ∀ i < k.vars.numTasks, (k.vars.tasks i).state = .blocked →
        awaited (k.threads (.task i)).code = some (.mutex (.named 0)) :=
    System.exists_of_runGuarded (by decide +kernel)
  exact ⟨k, hrun, hblocked, lock_order_no_deadlock .twoTasks (System.reach_of_runGuarded hrun)
    hpicks hactive fun i hi hb => ⟨_, hwaits i hi hb⟩⟩

/-- The first task takes one mutex and yields; the second takes another and asks for the first
one, and the first task asks for the other. -/
def crossedRun : List Action :=
  script 7 [(.call (.lock (.named 0)), 5), (.call .yield, 15), (.call (.lock (.named 1)), 5),
    (.call (.lock (.named 0)), 20), (.call (.lock (.named 1)), 13)]

/-- Without the order two tasks can block each other, and `scheduler_run` spins. -/
theorem deadlock_out_of_order :
    ∃ k, system.Reach (fun k a => LandsBetween k a ∧ SparesTake k a ∧ UnlocksOwn k a ∧
        EndsFree k a) Config.twoTasks.start k ∧
      k.next = some .runPick ∧ k.vars.pickNextReady = none ∧ k.vars.anyTaskActive = true := by
  obtain ⟨k, hrun, hdead⟩ : ∃ k, system.runGuarded (fun k a => LandsBetween k a ∧ SparesTake k a ∧
      UnlocksOwn k a ∧ EndsFree k a) Config.twoTasks.start crossedRun = some k ∧
      k.next = some .runPick ∧ k.vars.pickNextReady = none ∧ k.vars.anyTaskActive = true :=
    System.exists_of_runGuarded (by decide +kernel)
  exact ⟨k, System.reach_of_runGuarded hrun, hdead⟩

end Machine

end RtosXrce.Kernel
