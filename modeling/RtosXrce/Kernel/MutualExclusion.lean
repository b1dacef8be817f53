import Mathlib.Algebra.GroupWithZero.Nat
import RtosXrce.Kernel.Control

/-!
# Mutual exclusion of a mutex under preemption

`mutex_lock` tests `locked` and stores it in two statements. As long as no forced switch falls
between the two, `locked` is set exactly while one execution is between its store of 1 and its
store of 0, whatever the priorities and whatever else the tasks do.
-/

namespace RtosXrce.Kernel

open Library

/-- One if the statement stands between the store `locked = 1` and the return of `mutex_lock`, or
between the start of `mutex_unlock` and its store `locked = 0`. -/
def Stmt.holds (m : MutexId) : Stmt → Nat
  | lockOwn m' _ | lockSave m' _ | unlockRestore m' _ | unlockFree m' => if m' = m then 1 else 0
  | _ => 0

/-- The mutex whose `mutex_unlock` the statement starts. -/
def Stmt.unlocks : Stmt → Option MutexId
  | unlockCurrent m => some m
  | _ => none

/-- The store `locked = 1` of `mutex_lock`. -/
def Stmt.takes : Stmt → Bool
  | lockTake _ _ => true
  | _ => false

/-- How often a thread holds `m`. -/
def Thread.holds (m : MutexId) (th : Thread) : Nat :=
  (th.code.map (Stmt.holds m)).sum + th.held.count m

theorem Stmt.holds_of_returnPoint {m : MutexId} {s : Stmt} (h : s.returnPoint = true) :
    s.holds m = 0 ∧ ∀ c, s ≠ .lockTake m c := by
  cases s <;> simp_all [returnPoint, holds]

theorem holds_sum_returnPoints {m : MutexId} {rest : List Stmt}
    (h : ∀ s ∈ rest, s.returnPoint = true) : (rest.map (Stmt.holds m)).sum = 0 := by
  rw [List.sum_eq_zero_iff_forall_eq_nat]
  intro n hn
  obtain ⟨s, hs, rfl⟩ := List.mem_map.mp hn
  exact (Stmt.holds_of_returnPoint (h s hs)).1

theorem lockTake_head {m : MutexId} {c : Nat} {succ rest : List Stmt}
    (hrest : ∀ s ∈ rest, s.returnPoint = true)
    (h : (succ ++ rest).head? = some (.lockTake m c)) : succ.head? = some (.lockTake m c) := by
  cases succ with
  | nil =>
    have hmem : Stmt.lockTake m c ∈ rest := List.mem_of_head? h
    exact absurd rfl ((Stmt.holds_of_returnPoint (hrest _ hmem)).2 c)
  | cons => exact h

/-- The statements that do not store `locked` of `m` move the hold on `m` from one place of the
thread to the next. -/
theorem Stmt.exec_holds {g g' : Globals} {s : Stmt} {succ : List Stmt} {m : MutexId}
    (held : List MutexId) (h : s.exec g = some (g', succ)) (own : s = .unlockCurrent m → m ∈ held)
    (take : ∀ c, s ≠ .lockTake m c) (free : s ≠ .unlockFree m) :
    (g'.mutexes m).locked = (g.mutexes m).locked ∧
      (succ.map (holds m)).sum + (s.heldAfter held).count m = s.holds m + held.count m ∧
      ∀ c, succ.head? = some (.lockTake m c) → (g.mutexes m).locked = false := by
  cases s <;>
    simp only [exec, Option.map_eq_some_iff, Option.some.injEq, Prod.mk.injEq, reduceCtorEq,
      Option.ite_none_right_eq_some] at h
  case lockTest m' c =>
    obtain ⟨rfl, rfl⟩ := h
    split
    case isTrue => simp [holds, heldAfter]
    case isFalse hfree =>
      refine ⟨rfl, by simp [holds, heldAfter], fun c hc => ?_⟩
      obtain ⟨rfl, -⟩ : m' = m ∧ _ := by simpa using hc
      simpa using hfree
  case lockTake m' c =>
    have hne : m ≠ m' := fun hm => take c (hm ▸ rfl)
    obtain ⟨rfl, rfl⟩ := h
    simp [holds, heldAfter, hne, hne.symm]
  case unlockFree m' =>
    have hne : m ≠ m' := fun hm => free (hm ▸ rfl)
    obtain ⟨rfl, rfl⟩ := h
    simp [holds, heldAfter, hne, hne.symm]
  case lockOwn m' c | lockSave m' c | unlockDisown m' =>
    obtain ⟨rfl, rfl⟩ := h
    by_cases hm : m = m'
    · subst hm
      simp [holds, heldAfter, Nat.add_comm]
    · simp [holds, heldAfter, hm, Ne.symm hm]
  case unlockCurrent m' =>
    obtain ⟨c, -, rfl, rfl⟩ := h
    by_cases hm : m = m'
    · subst hm
      have hpos : 0 < held.count m := List.count_pos_iff.mpr (own rfl)
      refine ⟨rfl, ?_, by simp⟩
      simp [holds, heldAfter, List.count_erase_self]
      omega
    · simp [holds, heldAfter, Ne.symm hm, List.count_erase_of_ne hm]
  all_goals first
    | (obtain ⟨rfl, rfl⟩ := h; simp [holds, heldAfter]; done)
    | (obtain ⟨rfl, rfl⟩ := h; split <;> simp [holds, heldAfter])
    | (obtain ⟨c, -, rfl, rfl⟩ := h; simp [holds, heldAfter]; done)
    | (obtain ⟨-, rfl, rfl⟩ := h; simp [holds, heldAfter])

theorem Stmt.control_holds {b : Bool} {s : Stmt} {succ : List Stmt} (m : MutexId)
    (h : s.control b = some succ) :
    (succ.map (holds m)).sum = 0 ∧ s.holds m = 0 ∧ ∀ c, succ.head? ≠ some (.lockTake m c) := by
  unfold control at h
  split at h <;> cases h <;> simp [holds]

theorem Op.code_holds (op : Op) (m : MutexId) :
    (op.code.map (Stmt.holds m)).sum = 0 ∧ op.code ≠ [] ∧
      ∀ c, op.code.head? ≠ some (.lockTake m c) := by
  cases op <;> simp [Op.code, Stmt.holds]

namespace Machine

variable {k k' : Machine} {a : Action} {m : MutexId}

/-- A task starts `mutex_unlock` only on a mutex it has locked. -/
def UnlocksOwn (k : Machine) (a : Action) : Prop :=
  a = .exec → k.current.handlers = [] → ∀ s ∈ k.next, ∀ m ∈ s.unlocks, m ∈ k.current.held

instance (k : Machine) (a : Action) : Decidable (UnlocksOwn k a) :=
  inferInstanceAs (Decidable (_ → _ → _))

/-- The tick does not take the processor from an execution that has found `locked` at 0 and has
not stored 1 yet. -/
def SparesTake (k : Machine) (a : Action) : Prop :=
  a = .tick → k.tick.cpu ≠ k.cpu → ∀ s ∈ k.next, s.takes = false

instance (k : Machine) (a : Action) : Decidable (SparesTake k a) :=
  inferInstanceAs (Decidable (_ → _ → _))

/-- `locked` of `m` is set exactly while one execution holds `m`, and found at 0 only by the
execution that has the processor. -/
structure Exclusive (m : MutexId) (k : Machine) : Prop where
  one : ∃ o, ∀ e, (k.threads e).holds m =
    if (k.vars.mutexes m).locked = true ∧ e = o then 1 else 0
  about : ∀ e c, (k.threads e).code.head? = some (.lockTake m c) →
    e = k.cpu ∧ (k.vars.mutexes m).locked = false

theorem exclusive_start (c : Config) (m : MutexId) : Exclusive m c.start where
  one := by
    refine ⟨.sched, fun e => ?_⟩
    cases e <;> cases m <;>
      simp [Config.start, Config.vars, Thread.trampoline, Thread.holds, Stmt.holds, Mutex.init]
  about e c := by
    cases e <;> simp [Config.start, Thread.trampoline]

/-- A step that does not store `locked`. -/
theorem Exclusive.move (h : Exclusive m k) {th : Thread}
    (hk : k'.threads = Function.update k.threads k.cpu th)
    (locked : (k'.vars.mutexes m).locked = (k.vars.mutexes m).locked)
    (same : th.holds m = k.current.holds m)
    (head : ∀ c, th.code.head? = some (.lockTake m c) →
      k'.cpu = k.cpu ∧ (k.vars.mutexes m).locked = false) : Exclusive m k' := by
  obtain ⟨o, one⟩ := h.one
  refine ⟨⟨o, fun e => ?_⟩, fun e c hc => ?_⟩
  · rw [hk, locked, ← one e]
    by_cases he : e = k.cpu
    · subst he
      simpa [current] using same
    · simp [he]
  · rw [hk] at hc
    by_cases he : e = k.cpu
    · subst he
      obtain ⟨hcpu, hfree⟩ := head c (by simpa using hc)
      exact ⟨hcpu.symm, locked.trans hfree⟩
    · exact absurd (h.about e c (by simpa [he] using hc)).1 he

/-- The store `locked = 1`. -/
theorem Exclusive.take (h : Exclusive m k) {c : Nat} {rest : List Stmt} {th : Thread}
    (hk : k'.threads = Function.update k.threads k.cpu th)
    (hc : k.current.code = .lockTake m c :: rest)
    (locked : (k'.vars.mutexes m).locked = true) (code : th.code = .lockOwn m c :: rest)
    (held : th.held = k.current.held) : Exclusive m k' := by
  obtain ⟨o, one⟩ := h.one
  have free : (k.vars.mutexes m).locked = false :=
    (h.about k.cpu c (next_eq hc)).2
  have none : ∀ e, (k.threads e).holds m = 0 := fun e => by simpa [free] using one e
  refine ⟨⟨k.cpu, fun e => ?_⟩, fun e c' hc' => ?_⟩
  · rw [hk, locked]
    by_cases he : e = k.cpu
    · subst he
      have hself : k.current.holds m = 0 := none k.cpu
      simp only [Thread.holds, hc, List.map_cons, Stmt.holds, List.sum_cons] at hself
      simp only [Function.update_self, Thread.holds, code, held, List.map_cons, Stmt.holds,
        List.sum_cons, if_true, and_self]
      omega
    · simp [he, none e]
  · rw [hk] at hc'
    by_cases he : e = k.cpu
    · subst he
      simp [code] at hc'
    · exact absurd (h.about e c' (by simpa [he] using hc')).1 he

/-- The store `locked = 0`. -/
theorem Exclusive.free (h : Exclusive m k) {rest : List Stmt} {th : Thread}
    (hk : k'.threads = Function.update k.threads k.cpu th)
    (hc : k.current.code = .unlockFree m :: rest)
    (locked : (k'.vars.mutexes m).locked = false) (code : th.code = .unlockDisown m :: rest)
    (held : th.held = k.current.held) : Exclusive m k' := by
  obtain ⟨o, one⟩ := h.one
  have hcpu : k.current.holds m = 1 + ((rest.map (Stmt.holds m)).sum + th.held.count m) := by
    simp only [Thread.holds, hc, List.map_cons, Stmt.holds, List.sum_cons, if_true, held]
    omega
  have hone := one k.cpu
  have howner : k.cpu = o := by
    by_contra hne
    rw [show k.threads k.cpu = k.current from rfl, hcpu, if_neg (fun h => hne h.2)] at hone
    omega
  refine ⟨⟨o, fun e => ?_⟩, fun e c hc' => ?_⟩
  · rw [hk, locked]
    by_cases he : e = k.cpu
    · subst he
      rw [show k.threads k.cpu = k.current from rfl, hcpu] at hone
      simp only [Function.update_self, Thread.holds, code, List.map_cons, Stmt.holds,
        List.sum_cons]
      split at hone <;> simp <;> omega
    · have := one e
      rw [if_neg (fun h => he (h.2.trans howner.symm))] at this
      simp [he, this]
  · rw [hk] at hc'
    by_cases he : e = k.cpu
    · subst he
      simp [code] at hc'
    · exact absurd (h.about e c (by simpa [he] using hc')).1 he

theorem Exclusive.step (h : Exclusive m k) (stacked : Stacked k) (own : UnlocksOwn k a)
    (spares : SparesTake k a) (hstep : system.step k a = some k') : Exclusive m k' := by
  obtain ⟨th, hth, moves⟩ := step_moves hstep
  have about : ∀ c, k.current.code.head? = some (.lockTake m c) →
      (k.vars.mutexes m).locked = false := fun c hc => (h.about k.cpu c hc).2
  cases moves with
  | resume frame cpu code held =>
    refine h.move hth (by rw [frame.mutexes]) (by rw [Thread.holds, code, held]; rfl) fun c hc => ?_
    exact ⟨cpu, about c (by rwa [code] at hc)⟩
  | tick frame ticked code held =>
    refine h.move hth (by rw [frame.mutexes]) (by rw [Thread.holds, code, held]; rfl) fun c hc => ?_
    rw [code] at hc
    refine ⟨?_, about c hc⟩
    by_contra cpu
    cases spares rfl (ticked ▸ cpu) _ hc
  | @control s rest succ frame hc hs cpu code held =>
    obtain ⟨hsum, hzero, hhead⟩ := Stmt.control_holds m hs
    refine h.move hth (by rw [frame.mutexes]) ?_ fun c hc' => ?_
    · simp [Thread.holds, hc, code, held, hsum, hzero]
    · rw [code] at hc'
      exact absurd (lockTake_head (stacked.rest hc) hc') (hhead c)
  | @exit rest frame hc cpu code held =>
    have hrest := holds_sum_returnPoints (m := m) (stacked.rest hc)
    refine h.move hth (by rw [frame.mutexes]) ?_ (by simp [code])
    simp [Thread.holds, hc, code, held, hrest, Stmt.holds]
  | @plain s rest succ hh hc he cpu code held =>
    by_cases htake : ∃ c, s = .lockTake m c
    · obtain ⟨c, rfl⟩ := htake
      simp only [Stmt.exec, Option.some.injEq, Prod.mk.injEq] at he
      obtain ⟨hvars, rfl⟩ := he
      exact h.take hth hc (by simp [← hvars]) code held
    by_cases hfree : s = .unlockFree m
    · subst hfree
      simp only [Stmt.exec, Option.some.injEq, Prod.mk.injEq] at he
      obtain ⟨hvars, rfl⟩ := he
      exact h.free hth hc (by simp [← hvars]) code held
    obtain ⟨hlocked, hholds, hhead⟩ := Stmt.exec_holds k.current.held he
      (fun hs => own rfl hh _ (hs ▸ next_eq hc) m rfl) (fun c hs => htake ⟨c, hs⟩) hfree
    refine h.move hth hlocked ?_ fun c hc' => ?_
    · simp only [Thread.holds, hc, code, held, List.map_append, List.map_cons, List.sum_append,
        List.sum_cons]
      omega
    · rw [code] at hc'
      exact ⟨cpu, hhead c (lockTake_head (stacked.rest hc) hc')⟩
  | @call op rest frame cpu hc code held =>
    obtain ⟨hsum, hne, hhead⟩ := op.code_holds m
    refine h.move hth (by rw [frame.mutexes]) ?_ fun c hc' => ?_
    · simp [Thread.holds, hc, code, held, hsum]
    · rw [code, List.head?_append_of_ne_nil _ hne] at hc'
      exact absurd hc' (hhead c)

/-- At most one task is between the return of `mutex_lock` and the start of `mutex_unlock`. -/
def AtMostOneInside (k : Machine) : Prop :=
  ∀ m i j, m ∈ (k.threads (.task i)).held → m ∈ (k.threads (.task j)).held → i = j

/-- Mutual exclusion holds in every run that never forces a switch between the test and the store
of `locked`. -/
theorem mutual_exclusion (c : Config) {k : Machine}
    (h : system.Reach (fun k a => TicksTasks k a ∧ UnlocksOwn k a ∧ SparesTake k a) c.start k) :
    AtMostOneInside k := by
  intro m i j hi hj
  have inv : Exclusive m k :=
    h.invariant_with (fun _ => stacked_of_reach) (exclusive_start c m)
      fun _ _ _ stacked inv ⟨_, own, spares⟩ hstep => inv.step stacked own spares hstep
  obtain ⟨o, one⟩ := inv.one
  have holder : ∀ i, m ∈ (k.threads (.task i)).held → Exec.task i = o := by
    intro i hi
    have hpos : 0 < (k.threads (.task i)).holds m :=
      Nat.lt_of_lt_of_le (List.count_pos_iff.mpr hi) (Nat.le_add_left _ _)
    by_contra hne
    rw [one, if_neg (fun h => hne h.2)] at hpos
    omega
  exact Exec.task.inj ((holder i hi).trans (holder j hj).symm)

/-- The first task locks the mutex and is preempted; the second finds it locked and blocks. -/
def contentionRun : List Action :=
  script 7 [(.call (.lock (.named 0)), 5), (.tick, 0), (.call (.lock (.named 0)), 6)]

/-- The first task finds the mutex free and is preempted; the second locks it and is preempted; the
first locks it. -/
def splitRun : List Action :=
  script 7 [(.call (.lock (.named 0)), 2), (.tick, 0), (.call (.lock (.named 0)), 5), (.tick, 4)]

theorem mutual_exclusion_contention :
    ∃ k, system.runGuarded (fun k a => TicksTasks k a ∧ UnlocksOwn k a ∧ SparesTake k a)
        Config.twoTasks.start contentionRun = some k ∧
      (k.vars.tasks 1).state = .blocked ∧ AtMostOneInside k := by
  obtain ⟨k, hrun, hblocked⟩ : ∃ k, system.runGuarded
      (fun k a => TicksTasks k a ∧ UnlocksOwn k a ∧ SparesTake k a)
        Config.twoTasks.start contentionRun = some k ∧ (k.vars.tasks 1).state = .blocked :=
    System.exists_of_runGuarded (by decide +kernel)
  exact ⟨k, hrun, hblocked, mutual_exclusion .twoTasks (System.reach_of_runGuarded hrun)⟩

/-- Preempted between its test and its store of `locked`, the first task enters after the second
has entered. -/
theorem split_test_and_store :
    ∃ k, system.Reach (fun k a => TicksTasks k a ∧ UnlocksOwn k a) Config.twoTasks.start k ∧
      .named 0 ∈ (k.threads (.task 0)).held ∧ .named 0 ∈ (k.threads (.task 1)).held ∧
      ¬AtMostOneInside k := by
  obtain ⟨k, hrun, hfirst, hsecond⟩ : ∃ k, system.runGuarded
      (fun k a => TicksTasks k a ∧ UnlocksOwn k a) Config.twoTasks.start splitRun = some k ∧
      .named 0 ∈ (k.threads (.task 0)).held ∧ .named 0 ∈ (k.threads (.task 1)).held :=
    System.exists_of_runGuarded (by decide +kernel)
  refine ⟨k, System.reach_of_runGuarded hrun, hfirst, hsecond, fun one => ?_⟩
  cases one _ _ _ hfirst hsecond

end Machine

end RtosXrce.Kernel
