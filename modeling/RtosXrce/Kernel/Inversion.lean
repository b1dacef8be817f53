import RtosXrce.Kernel.Inheritance
import RtosXrce.Kernel.WaitLists

/-!
# Priority inheritance closes the inversion window

`mutex_lock` raises the owner of its mutex to the priority of the task that is about to wait for
it. The owner falls behind a waiter again in two ways: it unlocks another mutex, which restores
the priority with which it took that one, or a waiter is itself raised as the owner of another
mutex, and the boost is not passed on. In the cooperative runs without these two, the owner of a
locked mutex is at least as urgent as every task in its waiter array.
-/

namespace RtosXrce.Kernel

open Library

/-- The mutex of an object that is one. -/
def Obj.mutex? : Obj → Option MutexId
  | mutex m => some m
  | sem _ => none

namespace Globals

/-- The owner of `m` is at least as urgent as every task in its waiter array. -/
def Covered (g : Globals) (m : MutexId) : Prop :=
  ∀ w ∈ g.waiters (.mutex m), ∃ o ∈ (g.mutexes m).owner, (g.tasks w).priority ≤ (g.tasks o).priority

/-- A mutex with an empty waiter array is covered. -/
theorem covered_of_empty {g : Globals} {m : MutexId} (h : (g.waiters (.mutex m)).num = 0) :
    g.Covered m := by
  rintro w ⟨i, hi, -⟩
  omega

/-- `m` stays covered as long as the array and the owner stay, and the priorities of both. -/
theorem Covered.of_same {g g' : Globals} {m : MutexId} (h : g.Covered m)
    (waiters : g'.waiters (.mutex m) = g.waiters (.mutex m))
    (owner : (g'.mutexes m).owner = (g.mutexes m).owner)
    (waiter : ∀ w ∈ g.waiters (.mutex m), (g'.tasks w).priority = (g.tasks w).priority)
    (holder : ∀ o ∈ (g.mutexes m).owner, (g'.tasks o).priority = (g.tasks o).priority) :
    g'.Covered m := by
  intro w hw
  rw [waiters] at hw
  obtain ⟨o, ho, hle⟩ := h w hw
  refine ⟨o, owner ▸ ho, ?_⟩
  rwa [waiter w hw, holder o ho]

/-- Raising a task to a priority `p` keeps `m` covered, if another owner already has `p` where the
task waits for `m`. -/
theorem Covered.boost {g : Globals} {m : MutexId} (h : g.Covered m) {o : Nat} {p : Int}
    (hlt : (g.tasks o).priority < p)
    (waits : o ∈ g.waiters (.mutex m) → ∀ q ∈ (g.mutexes m).owner, q ≠ o →
      p ≤ (g.tasks q).priority) :
    (g.modifyTask o fun t => { t with priority := p }).Covered m := by
  intro w hw
  rw [waiters_modifyTask] at hw
  obtain ⟨q, hq, hle⟩ := h w hw
  refine ⟨q, hq, ?_⟩
  by_cases hqo : q = o
  · subst hqo
    by_cases hwq : w = q
    · rw [hwq]
    · rw [modifyTask_of_ne hwq]
      simp only [modifyTask_tasks, Function.update_self]
      omega
  · rw [modifyTask_of_ne hqo]
    by_cases hwo : w = o
    · subst hwo
      simpa using waits hw q hq hqo
    · rwa [modifyTask_of_ne hwo]

/-- Giving a task that does not wait for `m` the priority `p` keeps `m` covered, if `p` covers the
array where the task owns `m`. -/
theorem Covered.restore {g : Globals} {m : MutexId} (h : g.Covered m) {c : Nat} {p : Int}
    (hc : c ∉ g.waiters (.mutex m))
    (owns : (g.mutexes m).owner = some c → ∀ w ∈ g.waiters (.mutex m), (g.tasks w).priority ≤ p) :
    (g.modifyTask c fun t => { t with priority := p }).Covered m := by
  intro w hw
  rw [waiters_modifyTask] at hw
  obtain ⟨o, ho, hle⟩ := h w hw
  refine ⟨o, ho, ?_⟩
  have hwc : w ≠ c := fun h => hc (h ▸ hw)
  rw [modifyTask_of_ne hwc]
  by_cases hoc : o = c
  · subst hoc
    simpa using owns ho w hw
  · rwa [modifyTask_of_ne hoc]

theorem Covered.modifyWaiters {g : Globals} {m : MutexId} (h : g.Covered m) {o : Obj}
    {f : Waiters → Waiters}
    (added : o = .mutex m → ∀ w ∈ f (g.waiters (.mutex m)), w ∉ g.waiters (.mutex m) →
      ∃ q ∈ (g.mutexes m).owner, (g.tasks w).priority ≤ (g.tasks q).priority) :
    (g.modifyWaiters o f).Covered m := by
  intro w hw
  rw [waiters_modifyWaiters] at hw
  rw [modifyWaiters_owner, modifyWaiters_tasks]
  split at hw
  case isFalse => exact h w hw
  case isTrue hm =>
    by_cases hold : w ∈ g.waiters (.mutex m)
    · exact h w hold
    · exact added hm.symm w (hm ▸ hw) hold

end Globals

namespace Stmt

variable {g g' : Globals} {s : Stmt} {succ : List Stmt} {m : MutexId}

/-- The mutex whose owner the statement boosts. -/
def boosts : Stmt → Option MutexId
  | lockBoost m _ => some m
  | _ => none

/-- The object whose release the statement belongs to, up to the store that drops its waiters. -/
def drops : Stmt → Option Obj
  | unlockDisown m => some (.mutex m)
  | wakeTest o _ | wakeReady o _ | wakeClear o => some o
  | _ => none

/-- What an execution knows about the mutex it is locking or unlocking. -/
def Inherits (g : Globals) : Stmt → Prop
  | lockBoost m c => ∃ o ∈ (g.mutexes m).owner, (g.tasks o).priority < (g.tasks c).priority
  | lockAddWaiter m c => ∃ o ∈ (g.mutexes m).owner, (g.tasks c).priority ≤ (g.tasks o).priority
  | lockTake m _ | lockOwn m _ => (g.waiters (.mutex m)).num = 0
  | unlockRestore m c => ∀ m', m' ≠ m → (g.mutexes m').owner = some c →
      ∀ w ∈ g.waiters (.mutex m'), (g.tasks w).priority ≤ (g.mutexes m).ownerSavedPriority
  | unlockDisown m => (g.mutexes m).locked = false
  | _ => True

/-- A statement of a critical part of `mutex_lock` or `mutex_unlock`. -/
def critical : Stmt → Bool
  | lockBoost _ _ | lockAddWaiter _ _ | lockTake _ _ | lockOwn _ _ | unlockRestore _ _
  | unlockFree _ | unlockDisown _ | wakeTest _ _ | wakeReady _ _ | wakeClear _ => true
  | _ => false

theorem exec_priority (h : s.exec g = some (g', succ)) (hs : s.reprioritises = false) {t : Nat}
    (ht : t < g.numTasks) : (g'.tasks t).priority = (g.tasks t).priority := by
  cases exec_stores h with
  | lockBoost | unlockRestore => cases hs
  | state | overflow | sleepWake => exact Globals.modifyTask_field Task.priority rfl t
  | spawn p => rw [Globals.taskSpawn_tasks_of_lt _ _ ht]
  | wakeClear => simp
  | _ => rfl

theorem exec_inheritanceEnabled (h : s.exec g = some (g', succ)) (m : MutexId) :
    (g'.mutexes m).inheritanceEnabled = (g.mutexes m).inheritanceEnabled := by
  cases exec_stores h with
  | lockTake | lockOwn | lockSave | unlockFree | unlockDisown =>
    exact Globals.modifyMutex_field Mutex.inheritanceEnabled rfl
  | spawn | lockAddWaiter | waitAddWaiter | wakeClear => simp
  | _ => rfl

/-- A statement that stores no priority, no owner of `m` and no waiter. -/
theorem exec_covered_same (h : s.exec g = some (g', succ)) (hp : s.reprioritises = false)
    (ho : s.storesOwner ≠ some m) (hw : s.listsWaiters = false)
    (known : ∀ w ∈ g.waiters (.mutex m), w < g.numTasks)
    (owner : ∀ o ∈ (g.mutexes m).owner, o < g.numTasks) (covered : g.Covered m) :
    g'.Covered m :=
  covered.of_same (exec_waiters h hw _) (exec_owner h ho)
    (fun w hw => exec_priority h hp (known w hw)) fun o ho => exec_priority h hp (owner o ho)

/-- The owner of `m` stays ahead of the waiters, unless it is about to store `locked = 0`. -/
theorem exec_covered (h : s.exec g = some (g', succ)) (knows : s.Inherits g)
    (known : ∀ w ∈ g.waiters (.mutex m), w < g.numTasks)
    (owner : ∀ o ∈ (g.mutexes m).owner, o < g.numTasks)
    (awake : ∀ m' c, s = .unlockRestore m' c → c ∉ g.waiters (.mutex m))
    (boost : ∀ m' c, s = .lockBoost m' c → ∀ o ∈ (g.mutexes m').owner,
      o ∈ g.waiters (.mutex m) → ∀ p ∈ (g.mutexes m).owner, p ≠ o →
        (g.tasks c).priority ≤ (g.tasks p).priority)
    (covered : (g.mutexes m).locked = true → s ≠ .unlockFree m → g.Covered m)
    (locked : (g'.mutexes m).locked = true) (outside : succ.head? ≠ some (.unlockFree m)) :
    g'.Covered m := by
  by_cases htake : ∃ c, s = .lockTake m c
  · obtain ⟨c, rfl⟩ := htake
    refine Globals.covered_of_empty ?_
    rw [exec_waiters h rfl]
    exact knows
  have hsame : s.storesLocked ≠ some m ∧ s ≠ .unlockFree m := by
    refine ⟨fun hs => ?_, ?_⟩
    · obtain take | rfl := lockTake_or_unlockFree hs
      · exact htake take
      · cases h
        simp at locked
    · rintro rfl
      cases h
      simp at locked
  rw [exec_keeps_locked h hsame.1] at locked
  have hcov := covered locked hsame.2
  by_cases howner : s.storesOwner = some m
  · obtain ⟨c, rfl⟩ | rfl := lockOwn_or_unlockDisown howner
    · refine Globals.covered_of_empty ?_
      rw [exec_waiters h rfl]
      exact knows
    · cases knows.symm.trans locked
  cases s
  case lockBoost m' c =>
    simp only [exec, Option.map_eq_some_iff, Prod.mk.injEq] at h
    obtain ⟨o, ho, rfl, -⟩ := h
    have hlt : (g.tasks o).priority < (g.tasks c).priority := by
      obtain ⟨o', ho', hlt⟩ := knows
      rwa [Option.some.inj (ho.symm.trans ho')]
    exact hcov.boost hlt (boost m' c rfl o ho)
  case unlockRestore m' c =>
    have hne : m ≠ m' := by
      rintro rfl
      cases h
      exact outside rfl
    have hc := awake m' c rfl
    have hguard := knows m hne
    cases h
    exact hcov.restore hc hguard
  case lockAddWaiter m' c =>
    cases h
    refine hcov.modifyWaiters fun hm w hw hnew => ?_
    obtain rfl := Obj.mutex.inj hm
    obtain rfl := (Waiters.mem_of_add hw).resolve_left hnew
    exact knows
  case waitAddWaiter =>
    cases h
    exact hcov
  case wakeClear o =>
    cases h
    refine hcov.modifyWaiters fun _ w hw _ => ?_
    obtain ⟨i, hi, -⟩ := hw
    exact absurd hi (Nat.not_lt_zero i)
  all_goals exact exec_covered_same h rfl howner rfl known owner hcov

theorem exec_inherits (h : s.exec g = some (g', succ)) (knows : s.Inherits g)
    (enabled : ∀ m, (g.mutexes m).inheritanceEnabled = true)
    (free : ∀ m c, s = .lockTest m c → (g.mutexes m).locked = false →
      (g.waiters (.mutex m)).num = 0)
    (owned : ∀ m c, s = .lockCompare m c → (g.mutexes m).owner ≠ none)
    (restore : ∀ m, s = .unlockCurrent m → ∀ c ∈ g.currentIdx, (unlockRestore m c).Inherits g) :
    ∀ s' ∈ succ.head?, s'.Inherits g' := by
  cases s <;>
    simp only [exec, Option.map_eq_some_iff, Option.some.injEq, Prod.mk.injEq, reduceCtorEq,
      Option.ite_none_right_eq_some] at h
  case lockTest m c =>
    obtain ⟨rfl, rfl⟩ := h
    split
    case isTrue => rintro _ ⟨rfl⟩; trivial
    case isFalse hfree => rintro _ ⟨rfl⟩; exact free m c rfl (by simpa using hfree)
  case lockCompare m c =>
    obtain ⟨rfl, rfl⟩ := h
    split
    case isTrue hboost => rintro _ ⟨rfl⟩; exact hboost.2
    case isFalse hkeep =>
      rintro _ ⟨rfl⟩
      obtain ⟨o, ho⟩ := Option.ne_none_iff_exists'.mp (owned m c rfl)
      exact ⟨o, ho, Int.not_lt.mp fun hlt => hkeep ⟨enabled m, o, ho, hlt⟩⟩
  case lockBoost m c =>
    obtain ⟨o, ho, rfl, rfl⟩ := h
    rintro _ ⟨rfl⟩
    obtain ⟨o', ho', hlt⟩ := knows
    obtain rfl := Option.some.inj (ho.symm.trans ho')
    have hne : c ≠ o := by
      rintro rfl
      omega
    exact ⟨o, ho, by simp [hne]⟩
  case lockTake m c =>
    obtain ⟨rfl, rfl⟩ := h
    rintro _ ⟨rfl⟩
    exact (congrArg Waiters.num (Globals.waiters_modifyMutex rfl)).trans knows
  case unlockCurrent m =>
    obtain ⟨c, hc, rfl, rfl⟩ := h
    rintro _ ⟨rfl⟩
    exact restore m rfl c hc
  case unlockFree m =>
    obtain ⟨rfl, rfl⟩ := h
    rintro _ ⟨rfl⟩
    simp [Inherits]
  all_goals first
    | (obtain ⟨-, rfl⟩ := h; rintro _ ⟨rfl⟩ <;> trivial)
    | (obtain ⟨-, rfl⟩ := h; split <;> rintro _ ⟨rfl⟩ <;> trivial)
    | (obtain ⟨c, -, -, rfl⟩ := h; rintro _ ⟨rfl⟩ <;> trivial)

/-- A locked mutex has an owner, except between the first two stores of `mutex_lock`. -/
theorem exec_owned (h : s.exec g = some (g', succ)) (knows : s.Inherits g)
    (owned : (g.mutexes m).locked = true → (g.mutexes m).owner ≠ none ∨ ∃ c, s = .lockOwn m c)
    (locked : (g'.mutexes m).locked = true) :
    (g'.mutexes m).owner ≠ none ∨ ∃ c, succ.head? = some (.lockOwn m c) := by
  by_cases hlocked : s.storesLocked = some m
  · obtain ⟨c, rfl⟩ | rfl := lockTake_or_unlockFree hlocked
    · cases h
      exact Or.inr ⟨c, rfl⟩
    · cases h
      simp at locked
  rw [exec_keeps_locked h hlocked] at locked
  by_cases howner : s.storesOwner = some m
  · obtain ⟨c, rfl⟩ | rfl := lockOwn_or_unlockDisown howner
    · cases h
      simp
    · cases knows.symm.trans locked
  · rw [exec_owner h howner]
    refine Or.inl ((owned locked).resolve_right ?_)
    rintro ⟨c, rfl⟩
    exact howner rfl

/-- A free mutex has no waiters, except while its release is under way. -/
theorem exec_free (h : s.exec g = some (g', succ))
    (added : ∀ m c, s = .lockAddWaiter m c → (g.mutexes m).locked = true)
    (free : (g.mutexes m).locked = false →
      (g.waiters (.mutex m)).num = 0 ∨ s.drops = some (.mutex m))
    (unlocked : (g'.mutexes m).locked = false) :
    (g'.waiters (.mutex m)).num = 0 ∨ succ.head?.bind drops = some (.mutex m) := by
  by_cases hlocked : s.storesLocked = some m
  · obtain ⟨c, rfl⟩ | rfl := lockTake_or_unlockFree hlocked
    · cases h
      simp at unlocked
    · cases h
      exact Or.inr rfl
  rw [exec_keeps_locked h hlocked] at unlocked
  obtain hnone | hdrops := free unlocked
  · left
    by_cases hs : s.listsWaiters = false
    · rwa [exec_waiters h hs]
    · cases s <;> simp only [listsWaiters, not_true_eq_false, Bool.true_eq_false] at hs
      case lockAddWaiter m' c =>
        have hne : m ≠ m' := by
          rintro rfl
          cases unlocked.symm.trans (added m c rfl)
        cases h
        rwa [Globals.waiters_modifyWaiters, if_neg fun hm => hne (Obj.mutex.inj hm)]
      case waitAddWaiter =>
        cases h
        exact hnone
      case wakeClear o =>
        cases h
        rw [Globals.waiters_modifyWaiters]
        split
        · rfl
        · exact hnone
  · cases s <;> simp only [drops, Option.some.injEq, reduceCtorEq] at hdrops
    case unlockDisown m' =>
      cases h
      exact Or.inr (congrArg some hdrops)
    case wakeTest o i =>
      cases h
      subst hdrops
      split <;> exact Or.inr rfl
    case wakeReady o i =>
      obtain ⟨t, -, hout⟩ := Option.map_eq_some_iff.mp h
      obtain ⟨-, rfl⟩ := Prod.mk.inj hout
      exact Or.inr (congrArg some hdrops)
    case wakeClear o =>
      cases h
      subst hdrops
      left
      rw [Globals.waiters_modifyWaiters, if_pos rfl]

theorem exec_owner_known (h : s.exec g = some (g', succ)) (hcur : ∀ c ∈ s.cur, c < g.numTasks)
    (grows : g.numTasks ≤ g'.numTasks) (owner : ∀ o ∈ (g.mutexes m).owner, o < g.numTasks) :
    ∀ o ∈ (g'.mutexes m).owner, o < g'.numTasks := by
  intro o ho
  refine Nat.lt_of_lt_of_le ?_ grows
  by_cases howner : s.storesOwner = some m
  · obtain ⟨c, rfl⟩ | rfl := lockOwn_or_unlockDisown howner
    · cases h
      obtain rfl : c = o := by simpa using ho
      exact hcur c rfl
    · cases h
      simp at ho
  · rw [exec_owner h howner] at ho
    exact owner o ho

theorem inherits_of_quiet (h : s.critical = false) : s.Inherits g := by
  cases s <;> trivial

theorem critical_of_drops {o : Obj} (h : s.drops = some o) : s.critical = true := by
  cases s <;> first | rfl | cases h

theorem critical_returnPoint (h : s.returnPoint = true) : s.critical = false := by
  cases s <;> first | rfl | cases h

theorem critical_control {b : Bool} (h : s.control b = some succ) :
    s.critical = false ∧ ∀ s' ∈ succ.head?, s'.critical = false := by
  unfold control at h
  split at h <;> cases h <;> refine ⟨rfl, ?_⟩ <;> rintro _ ⟨rfl⟩ <;> rfl

end Stmt

theorem Op.code_critical (op : Op) : ∀ s ∈ op.code.head?, s.critical = false := by
  cases op <;> rintro _ ⟨rfl⟩ <;> rfl

/-- Three tasks of rising priority, without preemption. -/
def Config.lowMidHigh : Config :=
  { Config.lowHigh with priorities := [1, 5, 10], few := by decide }

namespace Machine

variable {k k' : Machine} {a : Action}

/-- A task that starts to unlock a mutex was, when it took it, at least as urgent as every task that
now waits for another mutex which it holds. -/
def RestoresEnough (w : Machine × TakenAt) (a : Action) : Prop :=
  a = .exec → w.1.current.handlers = [] → ∀ s ∈ w.1.next, ∀ m ∈ s.unlocks,
    ∀ m' ∈ w.1.current.held, m' ≠ m → ∀ t < w.1.vars.numTasks,
      t ∈ w.1.vars.waiters (.mutex m') → (w.1.vars.tasks t).priority ≤ w.2 m

instance (w : Machine × TakenAt) (a : Action) : Decidable (RestoresEnough w a) :=
  inferInstanceAs (Decidable (_ → _ → ∀ _ ∈ _, _))

/-- No `mutex_lock` boosts a task that is itself BLOCKED in `mutex_lock`. -/
def BoostsAwake (k : Machine) : Prop :=
  ∀ s ∈ k.next, ∀ m ∈ s.boosts, ∀ o ∈ (k.vars.mutexes m).owner,
    (k.vars.tasks o).state = .blocked → (awaited (k.threads (.task o)).code).bind Obj.mutex? = none

instance (k : Machine) : Decidable k.BoostsAwake := inferInstanceAs (Decidable (∀ _ ∈ _, _))

/-- Every boost of a BLOCKED task is one that the owner of the mutex it waits for has had. -/
def BoostsCovered (k : Machine) : Prop :=
  ∀ m c, k.next = some (.lockBoost m c) → ∀ o ∈ (k.vars.mutexes m).owner,
    (k.vars.tasks o).state = .blocked → ∀ x, awaited (k.threads (.task o)).code = some (.mutex x) →
      ∀ p ∈ (k.vars.mutexes x).owner, p ≠ o → (k.vars.tasks c).priority ≤ (k.vars.tasks p).priority

theorem BoostsAwake.covered (h : BoostsAwake k) : BoostsCovered k := by
  intro m c hs o ho hb x hx
  have hnone := h _ hs m rfl o ho hb
  rw [hx] at hnone
  cases hnone

structure Covering (k : Machine) : Prop where
  parked : ∀ e, e ≠ k.cpu → ∀ s ∈ (k.threads e).code.head?, s.critical = false
  enabled : ∀ m, (k.vars.mutexes m).inheritanceEnabled = true
  known : ∀ m, ∀ o ∈ (k.vars.mutexes m).owner, o < k.vars.numTasks
  owned : ∀ m, (k.vars.mutexes m).locked = true →
    (k.vars.mutexes m).owner ≠ none ∨ ∃ c, k.next = some (.lockOwn m c)
  free : ∀ m, (k.vars.mutexes m).locked = false →
    (k.vars.waiters (.mutex m)).num = 0 ∨ k.next.bind Stmt.drops = some (.mutex m)
  knows : ∀ s ∈ k.next, s.Inherits k.vars
  covered : ∀ m, (k.vars.mutexes m).locked = true → k.next ≠ some (.unlockFree m) →
    k.vars.Covered m

theorem covering_start (c : Config) (enabled : ∀ n, c.inheritance n = true) :
    Covering c.start where
  parked e _ := by
    cases e <;> rintro _ ⟨rfl⟩ <;> rfl
  enabled m := by
    cases m with
    | named n => exact enabled n
    | lockOf q => rfl
  known m := by
    cases m <;> exact nofun
  owned m h := by
    cases m <;> cases h
  free m _ := by
    cases m <;> exact Or.inl rfl
  knows := by
    rintro _ ⟨rfl⟩
    trivial
  covered m h := by
    cases m <;> cases h

/-- A step that runs no plain statement. -/
theorem Covering.of_frame (h : Covering k) (frame : k.vars.Frame k'.vars) {th : Thread}
    (hk : k'.threads = Function.update k.threads k.cpu th)
    (code : k'.cpu = k.cpu ∧ th.code = k.current.code ∨
      (∀ s ∈ k.next, s.critical = false) ∧ ∀ s ∈ th.code.head?, s.critical = false) :
    Covering k' := by
  have enabled : ∀ m, (k'.vars.mutexes m).inheritanceEnabled = true := by
    rw [frame.mutexes]
    exact h.enabled
  have known : ∀ m, ∀ o ∈ (k'.vars.mutexes m).owner, o < k'.vars.numTasks := by
    rw [frame.mutexes, frame.numTasks]
    exact h.known
  have covered : ∀ {m}, k.vars.Covered m → k'.vars.Covered m := fun hcov =>
    hcov.of_same (frame.waiters _) (by rw [frame.mutexes]) (fun w _ => frame.priority w)
      fun o _ => frame.priority o
  obtain ⟨cpu, code⟩ | ⟨hnext, hhead⟩ := code
  · have same : k'.next = k.next := by rw [next_of_stays hk cpu, code]; rfl
    refine ⟨fun e he => ?_, enabled, known, ?_, ?_, fun s hs => ?_, fun m locked hout => ?_⟩
    · have hne : e ≠ k.cpu := cpu ▸ he
      rw [thread_other hk hne]
      exact h.parked e hne
    · rw [same, frame.mutexes]
      exact h.owned
    · intro m hfree
      rw [frame.mutexes] at hfree
      rw [same, frame.waiters]
      exact h.free m hfree
    · rw [same] at hs
      have hknows := h.knows s hs
      cases s <;> simp only [Stmt.Inherits, frame.mutexes, frame.priority, frame.waiters]
        at hknows ⊢ <;> exact hknows
    · rw [frame.mutexes] at locked
      exact covered (h.covered m locked (same ▸ hout))
  · have hquiet : ∀ e, ∀ s ∈ (k'.threads e).code.head?, s.critical = false :=
      forall_threads hk (P := fun t => ∀ s ∈ t.code.head?, s.critical = false) h.parked hhead
    refine ⟨fun e _ => hquiet e, enabled, known, fun m locked => ?_, fun m hfree => ?_,
      fun s hs => Stmt.inherits_of_quiet (hquiet _ s hs), fun m locked _ => ?_⟩
    · rw [frame.mutexes] at locked ⊢
      refine Or.inl ((h.owned m locked).resolve_right ?_)
      rintro ⟨c, hc⟩
      cases hnext _ hc
    · rw [frame.mutexes] at hfree
      rw [frame.waiters]
      refine Or.inl ((h.free m hfree).resolve_right fun hdrops => ?_)
      obtain ⟨s, hs, hd⟩ := Option.bind_eq_some_iff.mp hdrops
      cases (hnext s hs).symm.trans (Stmt.critical_of_drops hd)
    · rw [frame.mutexes] at locked
      exact covered (h.covered m locked fun hout => nomatch hnext _ hout)

/-- What a task is about to restore is enough for the waiters of the other mutexes it owns. -/
theorem RestoresEnough.saved {taken : TakenAt} (restore : RestoresEnough (k, taken) .exec)
    (wf : Wf k) (att : Attended k) (hold : OwnersHold k) (recorded : Recorded (k, taken))
    (hh : k.current.handlers = []) {m m' : MutexId} {rest : List Stmt}
    (hc : k.current.code = .unlockCurrent m :: rest) {c : Nat} (hidx : k.vars.currentIdx = some c)
    (hne : m' ≠ m) (ho : (k.vars.mutexes m').owner = some c) {t : Nat}
    (ht : t ∈ k.vars.waiters (.mutex m')) :
    (k.vars.tasks t).priority ≤ (k.vars.mutexes m).ownerSavedPriority := by
  have hnext : k.next = some (.unlockCurrent m) := next_eq hc
  have hsaved : taken m = (k.vars.mutexes m).ownerSavedPriority :=
    recorded.saved_of_next hnext rfl m
  have hcpu : k.cpu = .task c := wf.cpu_of_idx hc rfl nofun hidx
  have howns := hold m' c ho
  rw [← hcpu] at howns
  have hheld : m' ∈ k.current.held := howns.resolve_right fun hm => by
    rw [code_of_cpu rfl hc] at hm
    cases hm
  rw [← hsaved]
  exact restore rfl hh _ hnext m rfl m' hheld hne t (att.lt_numTasks ht) ht

/-- A task that is about to be boosted is covered wherever it waits. -/
theorem BoostsCovered.waiting (boost : k.BoostsCovered) (enl : Enlisted k) {m x : MutexId} {c : Nat}
    {rest : List Stmt} (hc : k.current.code = .lockBoost m c :: rest) {o : Nat}
    (ho : o ∈ (k.vars.mutexes m).owner) (hw : o ∈ k.vars.waiters (.mutex x)) {p : Nat}
    (hp : p ∈ (k.vars.mutexes x).owner) (hne : p ≠ o) :
    (k.vars.tasks c).priority ≤ (k.vars.tasks p).priority := by
  have hnext : k.next = some (.lockBoost m c) := next_eq hc
  obtain ⟨hin, hstate⟩ | ⟨-, henrolled⟩ := enl.waits _ o hw
  · have hb := hstate.resolve_right fun hrouse => by
      rw [Rousing, hnext] at hrouse
      cases hrouse
    exact boost m c hnext o ho hb _ hin.awaited p hp hne
  · rw [hnext] at henrolled
    cases henrolled

theorem Covering.plain {taken : TakenAt} (h : Covering k) (ctl : Controlled k) (att : Attended k)
    (enl : Enlisted k) (hold : OwnersHold k) (recorded : Recorded (k, taken))
    (restore : RestoresEnough (k, taken) .exec) (boost : k.BoostsCovered)
    {s : Stmt} {rest succ : List Stmt} {th : Thread}
    (hk : k'.threads = Function.update k.threads k.cpu th) (hh : k.current.handlers = [])
    (hc : k.current.code = s :: rest) (he : s.exec k.vars = some (k'.vars, succ))
    (cpu : k'.cpu = k.cpu) (code : th.code = succ ++ rest) : Covering k' := by
  have hnext : s ∈ k.next := next_eq hc
  have hknows := h.knows s hnext
  have hnext' : k'.next = (succ ++ rest).head? := by rw [next_of_stays hk cpu, code]
  have hcur : ∀ c ∈ s.cur, k.cpu = .task c := fun c hs => ctl.wf.exec_of_cur (next_eq hc) hs
  have hwait : s.Knows k.vars := (att.head k.cpu).knows s (next_eq hc)
  have quiet : ∀ s' ∈ rest, s'.critical = false := fun s' hs' =>
    Stmt.critical_returnPoint (ctl.stacked.rest hc s' hs')
  refine ⟨fun e he' => ?_, fun m => ?_, fun m => ?_, fun m locked => ?_, fun m free => ?_, ?_,
    fun m locked outside => ?_⟩
  · have hne : e ≠ k.cpu := cpu ▸ he'
    rw [thread_other hk hne]
    exact h.parked e hne
  · rw [Stmt.exec_inheritanceEnabled he]
    exact h.enabled m
  · exact Stmt.exec_owner_known he (fun c hs => (ctl.wf.running c (hcur c hs)).1)
      (Stmt.exec_table he ctl.wf.few ctl.wf.contexts).1 (h.known m)
  · rw [hnext']
    refine (Stmt.exec_owned he hknows (fun hl => ?_) locked).imp_right fun ⟨c, hs⟩ =>
      ⟨c, head_append_of_some hs⟩
    exact (h.owned m hl).imp_right fun ⟨c, hs⟩ => ⟨c, (eq_of_next hc hs).symm⟩
  · rw [hnext']
    refine (Stmt.exec_free he (fun m c hs => ?_) (fun hf => ?_) free).imp_right fun hdrops => ?_
    · subst hs
      exact hwait
    · have hold := h.free m hf
      rwa [next_eq hc] at hold
    · obtain ⟨s', hs', hd⟩ := Option.bind_eq_some_iff.mp hdrops
      rw [head_append_of_some hs']
      exact hd
  · rw [hnext']
    refine head_append (Stmt.exec_inherits he hknows h.enabled ?_ ?_ ?_) fun s' hs' =>
      Stmt.inherits_of_quiet (quiet s' hs')
    · rintro m c rfl hf
      refine (h.free m hf).resolve_right ?_
      rw [next_eq hc]
      exact nofun
    · rintro m c rfl
      refine (h.owned m hwait).resolve_right ?_
      rintro ⟨c', hs⟩
      cases eq_of_next hc hs
    · rintro m rfl c hidx m' hne ho t ht
      exact restore.saved ctl.wf att hold recorded hh hc hidx hne ho ht
  · rw [hnext'] at outside
    refine Stmt.exec_covered he hknows (fun w hw => att.lt_numTasks hw) (h.known m) ?_ ?_ ?_ locked
      fun hs => outside (head_append_of_some hs)
    · rintro m' c rfl hw
      obtain henrolled | ⟨-, -, s', hs', hyield⟩ := enl.self att (hcur c rfl) hw
      · rw [next_eq hc] at henrolled
        cases henrolled
      · rw [eq_of_next hc hs'] at hyield
        cases hyield
    · rintro m' c rfl o ho hw p hp hne
      exact boost.waiting enl hc ho hw hp hne
    · exact fun hl hs => h.covered m hl fun hout => hs (eq_of_next hc hout).symm

theorem Covering.step {taken : TakenAt} (h : Covering k) (ctl : Controlled k) (att : Attended k)
    (enl : Enlisted k) (hold : OwnersHold k) (recorded : Recorded (k, taken)) (coop : Cooperative a)
    (restore : RestoresEnough (k, taken) a) (boost : k.BoostsCovered)
    (hstep : system.step k a = some k') : Covering k' := by
  have head : ∀ {s rest}, k.current.code = s :: rest → s.critical = false →
      ∀ s' ∈ k.next, s'.critical = false := by
    intro s rest hc hs s' hs'
    rwa [eq_of_next hc hs']
  obtain ⟨th, hth, moves⟩ := step_moves hstep
  cases moves with
  | resume frame cpu code => exact h.of_frame frame hth (Or.inl ⟨cpu, code⟩)
  | tick => exact absurd rfl coop
  | control frame hc hs cpu code =>
    obtain ⟨hquiet, hsucc⟩ := Stmt.critical_control hs
    refine h.of_frame frame hth (Or.inr ⟨head hc hquiet, ?_⟩)
    rw [code]
    exact head_append hsucc fun s' hs' => Stmt.critical_returnPoint (ctl.stacked.rest hc s' hs')
  | exit frame hc cpu code =>
    refine h.of_frame frame hth (Or.inr ⟨head hc rfl, ?_⟩)
    rw [code]
    exact nofun
  | plain hh hc he cpu code =>
    exact h.plain ctl att enl hold recorded restore boost hth hh hc he cpu code
  | @call op rest frame cpu hc code =>
    refine h.of_frame frame hth (Or.inr ⟨head hc rfl, ?_⟩)
    rw [code]
    refine head_append op.code_critical fun s' hs' => ?_
    rcases List.mem_cons.mp hs' with rfl | hs'
    · rfl
    · exact Stmt.critical_returnPoint (ctl.stacked.rest hc s' hs')

/-- The owner of each locked mutex is at least as urgent as every task in its waiter array. Between
the two stores with which `mutex_unlock` gives up the priority and the mutex, nothing is said about
that mutex. -/
def InversionClosed (k : Machine) : Prop :=
  ∀ m, (k.vars.mutexes m).locked = true → k.next ≠ some (.unlockFree m) → k.vars.Covered m

/-- A boost of a task that waits for the mutex `x` leaves its owner ahead only if it was as urgent
before. -/
theorem Covering.boost_iff (h : Covering k) (att : Attended k) (enl : Enlisted k)
    {m x : MutexId} {c o : Nat} {g : Globals} {succ : List Stmt}
    (hnext : k.next = some (.lockBoost m c)) (howner : (k.vars.mutexes m).owner = some o)
    (blocked : (k.vars.tasks o).state = .blocked)
    (hawaits : awaited (k.threads (.task o)).code = some (.mutex x))
    (he : (Stmt.lockBoost m c).exec k.vars = some (g, succ)) :
    (∀ m, (g.mutexes m).locked = true → g.Covered m) ↔
      ∀ p ∈ (k.vars.mutexes x).owner, p ≠ o →
        (k.vars.tasks c).priority ≤ (k.vars.tasks p).priority := by
  have hlt : (k.vars.tasks o).priority < (k.vars.tasks c).priority := by
    obtain ⟨o', ho', hlt⟩ := h.knows _ hnext
    rwa [Option.some.inj (howner.symm.trans ho')]
  have hg : g = k.vars.modifyTask o fun t => { t with priority := (k.vars.tasks c).priority } := by
    simp only [Stmt.exec, howner, Option.map_some, Option.some.injEq, Prod.mk.injEq] at he
    exact he.1.symm
  subst hg
  have hunlocking : ∀ m', k.next ≠ some (.unlockFree m') := fun m' hs => by
    cases hnext.symm.trans hs
  constructor
  · intro closed p hp hne
    have support := att.supported o blocked
    rw [Supported, hawaits] at support
    obtain ⟨hwaits, locked | ⟨e, s, hs, hreleases⟩⟩ := support
    · obtain ⟨q, hq, hle⟩ := closed x locked o hwaits
      obtain rfl := Option.some.inj (hp.symm.trans hq)
      simpa [hne] using hle
    · -- nobody is in the middle of a release
      have hcritical : s.critical = true := by cases s <;> first | rfl | cases hreleases
      by_cases hcpu : e = k.cpu
      · subst hcpu
        obtain rfl := Option.some.inj (hs.symm.trans hnext)
        cases hreleases
      · cases hcritical.symm.trans (h.parked e hcpu s hs)
  · intro enough m' locked
    refine (h.covered m' locked (hunlocking m')).boost hlt fun hw p hp hne => ?_
    obtain ⟨hin, -⟩ | ⟨-, henrolled⟩ := enl.waits _ o hw
    · obtain rfl := Obj.mutex.inj (Option.some.inj (hawaits.symm.trans hin.awaited))
      exact enough p hp hne
    · rw [hnext] at henrolled
      cases henrolled

/-- In a cooperative run in which the two ways to fall behind do not occur, the inversion window is
closed. In such a state, a boost of a task that waits for another mutex keeps it closed exactly
where the owner of that one is already as urgent. -/
theorem inversion_closed (c : Config) (enabled : ∀ n, c.inheritance n = true)
    {w : Machine × TakenAt}
    (h : taking.Reach (fun w a => Cooperative a ∧ RestoresEnough w a ∧ w.1.BoostsAwake)
      (c.start, fun _ => 0) w) :
    w.1.InversionClosed ∧
    ∀ {m x : MutexId} {c o : Nat} {g : Globals} {succ : List Stmt},
      w.1.next = some (.lockBoost m c) → (w.1.vars.mutexes m).owner = some o →
      (w.1.vars.tasks o).state = .blocked →
      awaited (w.1.threads (.task o)).code = some (.mutex x) →
      (Stmt.lockBoost m c).exec w.1.vars = some (g, succ) →
      ((∀ m, (g.mutexes m).locked = true → g.Covered m) ↔
        ∀ p ∈ (w.1.vars.mutexes x).owner, p ≠ o →
          (w.1.vars.tasks c).priority ≤ (w.1.vars.tasks p).priority) := by
  have known : ∀ w, taking.Reach (fun w a => Cooperative a ∧ RestoresEnough w a ∧ w.1.BoostsAwake)
      (c.start, fun _ => 0) w →
      Controlled w.1 ∧ Attended w.1 ∧ Enlisted w.1 ∧ OwnersHold w.1 ∧ Recorded w := by
    intro w h
    have run : system.Reach (fun _ a => Cooperative a) c.start w.1 :=
      h.unwatch_mono fun _ _ hok => hok.1
    have dispatch := fun k a (coop : Cooperative a) => coop.sparesDispatch k
    exact ⟨controlled_of_reach dispatch run,
      attended_of_reach (fun _ h => (controlled_of_reach dispatch h).wf)
        (fun k _ coop => coop.spares k) run,
      enlisted_of_reach (fun k a coop =>
        ⟨dispatch k a coop, (coop.spares k).1, coop.sparesRouse k⟩) run,
      ownersHold_of_reach (fun _ _ coop => coop) run,
      recorded_of_reach (fun _ _ hok => hok.1) h⟩
  have covering : Covering w.1 :=
    h.invariant_with (I := fun w => Covering w.1) known (covering_start c enabled)
      fun w a w' ⟨ctl, att, enl, hold, recorded⟩ covering ⟨coop, restore, boost⟩ hstep =>
        covering.step ctl att enl hold recorded coop restore boost.covered
          (System.watch_step hstep).1
  obtain ⟨-, att, enl, -, -⟩ := known w h
  exact ⟨covering.covered, fun hnext howner blocked hawaits he =>
    covering.boost_iff att enl hnext howner blocked hawaits he⟩

theorem inversion_closed_boosted :
    ∃ w, taking.runGuarded (fun w a => Cooperative a ∧ RestoresEnough w a ∧ w.1.BoostsAwake)
        (Config.lowHigh.start, fun _ => 0) (script 7 boostRun) = some w ∧
      1 ∈ (w.1.vars.mutexes (.named 0)).waiters ∧ (w.1.vars.tasks 1).priority = 10 ∧
      ∃ o ∈ (w.1.vars.mutexes (.named 0)).owner,
        (w.1.vars.tasks 1).priority ≤ (w.1.vars.tasks o).priority := by
  obtain ⟨w, hrun, hpriority, locked, outside, hw⟩ : ∃ w, taking.runGuarded
      (fun w a => Cooperative a ∧ RestoresEnough w a ∧ w.1.BoostsAwake)
        (Config.lowHigh.start, fun _ => 0) (script 7 boostRun) = some w ∧
      (w.1.vars.tasks 1).priority = 10 ∧ (w.1.vars.mutexes (.named 0)).locked = true ∧
      w.1.next ≠ some (.unlockFree (.named 0)) ∧ 1 ∈ (w.1.vars.mutexes (.named 0)).waiters :=
    System.exists_of_runGuarded (by decide +kernel)
  have closed := (inversion_closed .lowHigh (fun _ => rfl) (System.reach_of_runGuarded hrun)).1
  exact ⟨w, hrun, hw, hpriority, closed _ locked outside 1 hw⟩

/-- The low task locks two mutexes; the high task blocks on the first and boosts it; it unlocks the
second, which restores the priority it had before. -/
def restoreRun : List Action :=
  script 7 [(.call (.wait (.named 0)), 18), (.call (.lock (.named 0)), 5),
    (.call (.lock (.named 1)), 5), (.call (.post (.named 0)), 5), (.call .yield, 18),
    (.call (.lock (.named 0)), 21), (.call (.unlock (.named 1)), 6)]

/-- Task 0 holds the second mutex; task 1 holds the first and blocks on the second; task 2 blocks on
the first and boosts task 1. -/
def chainRun : List Action :=
  script 7 [(.call (.wait (.named 0)), 18), (.call (.wait (.named 1)), 18),
    (.call (.lock (.named 1)), 5), (.call (.post (.named 1)), 5), (.call .yield, 18),
    (.call (.lock (.named 0)), 5), (.call (.post (.named 0)), 5), (.call (.lock (.named 1)), 23),
    (.call (.lock (.named 0)), 21)]

/-- After either run all tasks are between two calls or blocked, and a locked mutex has an owner
below its waiter. -/
theorem owner_below_waiter :
    (∃ k, system.Reach (fun k a => Cooperative a ∧ UnlocksOwned k a ∧ NeverRelocks k a)
        Config.lowHigh.start k ∧ k.next = some .body ∧
      (k.vars.mutexes (.named 0)).locked = true ∧ 1 ∈ (k.vars.mutexes (.named 0)).waiters ∧
      (k.vars.mutexes (.named 0)).owner = some 0 ∧
      (k.vars.tasks 0).priority < (k.vars.tasks 1).priority) ∧
    ∃ k, system.Reach (fun k a => Cooperative a ∧ UnlocksOwned k a ∧ NeverRelocks k a)
        Config.lowMidHigh.start k ∧ k.next = some .body ∧
      (k.vars.mutexes (.named 1)).locked = true ∧ 1 ∈ (k.vars.mutexes (.named 1)).waiters ∧
      (k.vars.mutexes (.named 1)).owner = some 0 ∧
      (k.vars.tasks 0).priority < (k.vars.tasks 1).priority := by
  obtain ⟨k, hrun, hk⟩ : ∃ k, system.runGuarded
      (fun k a => Cooperative a ∧ UnlocksOwned k a ∧ NeverRelocks k a)
        Config.lowHigh.start restoreRun = some k ∧ k.next = some .body ∧
      (k.vars.mutexes (.named 0)).locked = true ∧ 1 ∈ (k.vars.mutexes (.named 0)).waiters ∧
      (k.vars.mutexes (.named 0)).owner = some 0 ∧
      (k.vars.tasks 0).priority < (k.vars.tasks 1).priority :=
    System.exists_of_runGuarded (by decide +kernel)
  obtain ⟨k', hrun', hk'⟩ : ∃ k, system.runGuarded
      (fun k a => Cooperative a ∧ UnlocksOwned k a ∧ NeverRelocks k a)
        Config.lowMidHigh.start chainRun = some k ∧ k.next = some .body ∧
      (k.vars.mutexes (.named 1)).locked = true ∧ 1 ∈ (k.vars.mutexes (.named 1)).waiters ∧
      (k.vars.mutexes (.named 1)).owner = some 0 ∧
      (k.vars.tasks 0).priority < (k.vars.tasks 1).priority :=
    System.exists_of_runGuarded (by decide +kernel)
  exact ⟨⟨k, System.reach_of_runGuarded hrun, hk⟩, k', System.reach_of_runGuarded hrun', hk'⟩

end Machine

end RtosXrce.Kernel
