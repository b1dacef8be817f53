import Mathlib.Data.Finset.Card
import RtosXrce.Kernel.Control

/-!
# No wakeup is lost outside two windows

A waiter tests its condition, registers and blocks in separate statements; a releaser changes the
condition, wakes the registered waiters one by one and then drops the whole list. A forced switch
between the test and the block, or inside the wake loop, loses a wakeup. In the runs without such
a switch every blocked task is registered with what it waits for, and that is not available, or
its release is still under way.
-/

namespace RtosXrce.Kernel

open Library

namespace Waiters

/-- The entries are registered tasks, each once. -/
structure Ok (n : Nat) (w : Waiters) : Prop where
  known : ∀ p < w.num, ∃ t < n, w.slots p = some t
  distinct : ∀ p < w.num, ∀ q < w.num, w.slots p = w.slots q → p = q

theorem Ok.mono {n n' : Nat} {w : Waiters} (h : Ok n w) (hn : n ≤ n') : Ok n' w :=
  ⟨fun p hp => (h.known p hp).imp fun _ ht => ⟨Nat.lt_of_lt_of_le ht.1 hn, ht.2⟩, h.distinct⟩

theorem ok_empty (n : Nat) (slots : Nat → Option Nat) : Ok n ⟨slots, 0⟩ :=
  ⟨fun _ h => absurd h (Nat.not_lt_zero _), fun _ h => absurd h (Nat.not_lt_zero _)⟩

/-- A task that is not registered yet still finds a free slot. -/
theorem Ok.room {n t : Nat} {w : Waiters} (h : Ok n w) (ht : t < n) (new : t ∉ w) : w.num < n := by
  have hinj : (Finset.range w.num).card ≤ ((Finset.range n).erase t).card := by
    refine Finset.card_le_card_of_injOn (fun p => (w.slots p).getD 0) ?_ ?_
    · intro p hp
      have hp : p < w.num := by simpa using hp
      obtain ⟨u, hu, hslot⟩ := h.known p hp
      have hne : u ≠ t := fun hut => new ⟨p, hp, hut ▸ hslot⟩
      simp [hslot, hu, hne]
    · intro p hp q hq hpq
      have hp : p < w.num := by simpa using hp
      have hq : q < w.num := by simpa using hq
      obtain ⟨u, -, hu⟩ := h.known p hp
      obtain ⟨v, -, hv⟩ := h.known q hq
      simp only [hu, hv, Option.getD_some] at hpq
      exact h.distinct p hp q hq (by rw [hu, hv, hpq])
  rw [Finset.card_erase_of_mem (Finset.mem_range.mpr ht), Finset.card_range,
    Finset.card_range] at hinj
  omega

theorem Ok.add {n t : Nat} {w : Waiters} (h : Ok n w) (ht : t < n) (few : n ≤ schedMaxTasks) :
    Ok n (w.add t) ∧ t ∈ w.add t := by
  unfold Waiters.add
  split
  case isTrue old => exact ⟨h, old⟩
  case isFalse new =>
    have hroom : w.num < schedMaxTasks := Nat.lt_of_lt_of_le (h.room ht new) few
    rw [if_pos hroom]
    refine ⟨⟨fun p hp => ?_, fun p hp q hq hpq => ?_⟩, w.num, by simp, by simp⟩
    · by_cases hpn : p = w.num
      · exact ⟨t, ht, by simp [hpn]⟩
      · simpa [hpn] using h.known p (by dsimp only at hp; omega)
    · dsimp only at hp hq hpq
      by_cases hpn : p = w.num <;> by_cases hqn : q = w.num
      · omega
      · subst hpn
        refine absurd ⟨q, by omega, ?_⟩ new
        simpa [hqn] using hpq.symm
      · subst hqn
        refine absurd ⟨p, by omega, ?_⟩ new
        simpa [hpn] using hpq
      · exact h.distinct p (by omega) q (by omega) (by simpa [hpn, hqn] using hpq)

end Waiters

theorem Globals.modifyTask_of_ne {g : Globals} {c j : Nat} (h : j ≠ c) (f : Task → Task) :
    (g.modifyTask c f).tasks j = g.tasks j := by
  simp [h]

theorem Waiters.mem_add {w : Waiters} {j : Nat} (h : j ∈ w) (t : Nat) : j ∈ w.add t := by
  unfold Waiters.add
  split
  · exact h
  · split
    · obtain ⟨p, hp, hslot⟩ := h
      exact ⟨p, Nat.lt_succ_of_lt hp, by simpa [Nat.ne_of_lt hp] using hslot⟩
    · exact h

/-- The object a wait loop waits for. -/
def Stmt.awaits : Stmt → Option Obj
  | lockTest m _ => some (.mutex m)
  | waitTest s _ => some (.sem s)
  | _ => none

/-- The object a thread goes on waiting for when the statement it runs next has returned. -/
def awaited (code : List Stmt) : Option Obj := code.tail.head?.bind Stmt.awaits

/-- The object whose release the statement belongs to: after the store that makes it available,
up to the end of the wake loop. -/
def Stmt.releases : Stmt → Option Obj
  | unlockDisown m => some (.mutex m)
  | wakeTest o _ | wakeReady o _ => some o
  | _ => none

/-- A statement of `task_yield` before its `swapcontext`. -/
def Stmt.yields : Stmt → Bool
  | yieldTest | yieldCurrent | yieldState _ | yieldReady _ | yieldBlock _ | yieldSwap _ _ => true
  | _ => false

def Stmt.sleeps : Stmt → Bool
  | sleepTest _ | sleepCurrent _ | sleepWake _ _ | sleepBlock _ => true
  | _ => false

/-- After a wait loop has found its object unavailable, before the task is BLOCKED. -/
def Stmt.entersWait : Stmt → Bool
  | lockCompare _ _ | lockBoost _ _ | lockAddWaiter _ _ | lockBlock _ _ | waitAddWaiter _ _
  | waitBlock _ _ => true
  | _ => false

/-- After a wake loop has made its first test, before the waiters are dropped. -/
def Stmt.wakes : Stmt → Bool
  | wakeTest _ i => i ≠ 0
  | wakeReady _ _ | wakeClear _ => true
  | _ => false

/-- After a wake loop has made a waiter READY or has come to its end, before the waiters are
dropped. -/
def Stmt.midWake : Stmt → Bool
  | wakeTest _ i | wakeReady _ i => i ≠ 0
  | wakeClear _ => true
  | _ => false

theorem Stmt.midWake_of_wakes {s : Stmt} (h : s.wakes = false) : s.midWake = false := by
  cases s <;> simp_all [wakes, midWake]

def Globals.Unavailable (g : Globals) : Obj → Prop
  | .mutex m => (g.mutexes m).locked = true
  | .sem s => (g.sems s).count ≤ 0

theorem Globals.Unavailable.modifyMutex {g : Globals} {o : Obj} (ho : g.Unavailable o) {m : MutexId}
    {f : Mutex → Mutex} (hf : o = .mutex m → (g.mutexes m).locked = true →
      (f (g.mutexes m)).locked = true) : (g.modifyMutex m f).Unavailable o := by
  cases o with
  | mutex m' =>
    by_cases hm : m' = m
    · subst hm
      simpa [Unavailable] using hf rfl ho
    · simpa [Unavailable, hm] using ho
  | sem => exact ho

theorem Globals.Unavailable.modifySem {g : Globals} {o : Obj} (ho : g.Unavailable o) {i : SemId}
    {f : Semaphore → Semaphore} (hf : o = .sem i → (g.sems i).count ≤ 0 →
      (f (g.sems i)).count ≤ 0) : (g.modifySem i f).Unavailable o := by
  cases o with
  | mutex => exact ho
  | sem i' =>
    by_cases hi : i' = i
    · subst hi
      simpa [Unavailable] using hf rfl ho
    · simpa [Unavailable, hi] using ho

/-- What an execution knows in front of a statement. -/
def Stmt.Knows (g : Globals) : Stmt → Prop
  | lockCompare m _ | lockBoost m _ | lockAddWaiter m _ => g.Unavailable (.mutex m)
  | lockBlock m c => g.Unavailable (.mutex m) ∧ c ∈ g.waiters (.mutex m)
  | waitAddWaiter s _ => g.Unavailable (.sem s)
  | waitBlock s c => g.Unavailable (.sem s) ∧ c ∈ g.waiters (.sem s)
  | wakeTest o i | wakeReady o i =>
    ∀ p < i, ∀ t, (g.waiters o).slots p = some t → (g.tasks t).state ≠ .blocked
  | wakeClear o => ∀ t ∈ g.waiters o, (g.tasks t).state ≠ .blocked
  | sleepBlock c => c < g.numTasks ∧ (g.tasks c).wakeTick ≠ 0 ∧ (g.tasks c).state ≠ .blocked
  | _ => True

namespace Stmt

variable {g g' : Globals} {s : Stmt} {succ : List Stmt} {o : Obj}

/-- The statements that change a waiter array. -/
def listsWaiters : Stmt → Bool
  | lockAddWaiter _ _ | waitAddWaiter _ _ | wakeClear _ => true
  | _ => false

theorem exec_waiters (h : s.exec g = some (g', succ)) (hs : s.listsWaiters = false) (o : Obj) :
    g'.waiters o = g.waiters o := by
  cases exec_stores h with
  | lockAddWaiter | waitAddWaiter | wakeClear => cases hs
  | lockTake | lockOwn | lockSave | unlockFree | unlockDisown =>
    exact Globals.waiters_modifyMutex rfl
  | waitTake | postCount => exact Globals.waiters_modifySem rfl
  | spawn => simp
  | _ => cases o <;> rfl

theorem cur_of_sets_blocked {c : Nat} (h : s.sets g = some (c, .blocked)) : s.cur = some c := by
  cases s <;> simp_all [sets, cur]

theorem exec_blocked (h : s.exec g = some (g', succ)) {j : Nat} (hj : j ∉ s.cur)
    (hb : (g'.tasks j).state = .blocked) :
    (g.tasks j).state = .blocked ∧ (g'.tasks j).wakeTick = (g.tasks j).wakeTick := by
  constructor
  · obtain same | sets | ⟨-, -, ready⟩ := exec_sets h j
    · exact same.symm.trans hb
    · rw [hb] at sets
      exact absurd (cur_of_sets_blocked sets) hj
    · cases hb.symm.trans ready
  · cases exec_stores h with
    | sleepWake c =>
      have hne : j ≠ c := fun hc => hj (hc ▸ rfl)
      simp [hne]
    | state | overflow | lockBoost | unlockRestore =>
      exact Globals.modifyTask_field Task.wakeTick rfl j
    | spawn p => rw [Globals.taskSpawn_tasks_of_not_ready (by rw [hb]; simp)]
    | wakeClear => simp
    | _ => rfl

theorem exec_wakeTick (h : s.exec g = some (g', succ)) {j : Nat} (hj : j < g.numTasks)
    (hs : ∀ ms, s ≠ .sleepWake j ms) : (g'.tasks j).wakeTick = (g.tasks j).wakeTick := by
  cases exec_stores h with
  | sleepWake c ms =>
    have hne : j ≠ c := fun hc => hs ms (hc ▸ rfl)
    simp [hne]
  | state | overflow | lockBoost | unlockRestore =>
    exact Globals.modifyTask_field Task.wakeTick rfl j
  | spawn p => rw [Globals.taskSpawn_tasks_of_lt _ _ hj]
  | wakeClear => simp
  | _ => rfl

/-- An object stays unavailable, or its release begins. -/
theorem exec_unavailable (h : s.exec g = some (g', succ)) (ho : g.Unavailable o) :
    g'.Unavailable o ∨ ∃ s' ∈ succ.head?, s'.releases = some o := by
  cases exec_stores h with
  | unlockFree m =>
    by_cases hm : o = .mutex m
    · cases h
      exact Or.inr ⟨_, rfl, by rw [hm]; rfl⟩
    · exact Or.inl (ho.modifyMutex fun h => absurd h hm)
  | postCount i =>
    by_cases hi : o = .sem i
    · cases h
      exact Or.inr ⟨_, rfl, by rw [hi]; rfl⟩
    · exact Or.inl (ho.modifySem fun h => absurd h hi)
  | lockTake => exact Or.inl (ho.modifyMutex fun _ _ => rfl)
  | lockOwn | lockSave | unlockDisown => exact Or.inl (ho.modifyMutex fun _ => id)
  | waitTake => exact Or.inl (ho.modifySem fun _ h => by dsimp only; omega)
  | spawn | lockAddWaiter | waitAddWaiter | wakeClear =>
    exact Or.inl (by cases o <;> simpa [Globals.Unavailable] using ho)
  | _ => exact Or.inl (by cases o <;> exact ho)

/-- A blocked waiter stays registered. -/
theorem exec_mem (h : s.exec g = some (g', succ)) (knows : s.Knows g) {j : Nat}
    (hj : j ∈ g.waiters o) (hb : (g'.tasks j).state = .blocked) : j ∈ g'.waiters o := by
  by_cases hs : s.listsWaiters = false
  · rwa [exec_waiters h hs]
  · cases s <;> simp only [listsWaiters, not_true_eq_false, Bool.true_eq_false] at hs
    case lockAddWaiter m c =>
      cases h
      rw [Globals.waiters_modifyWaiters]
      split
      case isTrue ho => exact Waiters.mem_add (ho ▸ hj) c
      case isFalse => exact hj
    case waitAddWaiter s c =>
      cases h
      rw [Globals.waiters_modifyWaiters]
      split
      case isTrue ho => exact Waiters.mem_add (ho ▸ hj) c
      case isFalse => exact hj
    case wakeClear o' =>
      cases h
      rw [Globals.waiters_modifyWaiters]
      split
      case isTrue ho =>
        subst ho
        exact absurd (by simpa using hb) (knows j hj)
      case isFalse => exact hj

/-- The release of an object goes on as long as one of its waiters is blocked. -/
theorem exec_releases (h : s.exec g = some (g', succ)) (knows : s.Knows g) {j : Nat}
    (hj : j ∈ g.waiters o) (hb : (g'.tasks j).state = .blocked) (hr : s.releases = some o) :
    ∃ s' ∈ succ.head?, s'.releases = some o := by
  cases s <;> simp only [releases, Option.some.injEq, reduceCtorEq] at hr
  case unlockDisown m =>
    cases h
    exact ⟨_, rfl, congrArg some hr⟩
  case wakeTest o' i =>
    subst hr
    cases h
    split
    case isTrue => exact ⟨_, rfl, rfl⟩
    case isFalse hend =>
      obtain ⟨p, hp, hslot⟩ := hj
      exact absurd hb (knows p (by omega) j hslot)
  case wakeReady o' i =>
    subst hr
    obtain ⟨t, -, hout⟩ := Option.map_eq_some_iff.mp h
    obtain ⟨-, rfl⟩ := Prod.mk.inj hout
    exact ⟨_, rfl, rfl⟩

theorem exec_knows (h : s.exec g = some (g', succ)) (knows : s.Knows g)
    (hcur : ∀ c ∈ s.cur, c < g.numTasks)
    (awake : s.sleeps = true → ∀ c ∈ s.cur, (g.tasks c).state ≠ .blocked)
    (few : g.numTasks ≤ schedMaxTasks)
    (slots : ∀ o, (g.waiters o).Ok g.numTasks) : ∀ s' ∈ succ.head?, s'.Knows g' := by
  cases s <;>
    simp only [exec, Option.map_eq_some_iff, Option.some.injEq, Prod.mk.injEq, reduceCtorEq,
      Option.ite_none_right_eq_some] at h
  case sleepWake c ms =>
    obtain ⟨rfl, rfl⟩ := h
    have hpos : 0 < (if ms / (g.tickMs : Int) ≤ 0 then 1 else (ms / (g.tickMs : Int)).toNat) := by
      split <;> omega
    rintro _ ⟨rfl⟩
    refine ⟨hcur c rfl, ?_, ?_⟩
    · simp only [Globals.modifyTask_tasks, Function.update_self]
      omega
    · simpa using awake rfl c rfl
  case lockTest m c =>
    obtain ⟨rfl, rfl⟩ := h
    split
    case isTrue locked => rintro _ ⟨rfl⟩; exact locked
    case isFalse => rintro _ ⟨rfl⟩; trivial
  case lockCompare m c =>
    obtain ⟨rfl, rfl⟩ := h
    split <;> rintro _ ⟨rfl⟩ <;> exact knows
  case lockBoost m c =>
    obtain ⟨o, -, rfl, rfl⟩ := h
    rintro _ ⟨rfl⟩
    exact knows
  case lockAddWaiter m c =>
    obtain ⟨rfl, rfl⟩ := h
    rintro _ ⟨rfl⟩
    refine ⟨by simpa [Globals.Unavailable, Knows] using knows, ?_⟩
    rw [Globals.waiters_modifyWaiters, if_pos rfl]
    exact ((slots _).add (hcur c rfl) few).2
  case waitTest s c =>
    obtain ⟨rfl, rfl⟩ := h
    split
    case isTrue empty => rintro _ ⟨rfl⟩; exact empty
    case isFalse => rintro _ ⟨rfl⟩; trivial
  case waitAddWaiter s c =>
    obtain ⟨rfl, rfl⟩ := h
    rintro _ ⟨rfl⟩
    refine ⟨by simpa [Globals.Unavailable, Knows] using knows, ?_⟩
    rw [Globals.waiters_modifyWaiters, if_pos rfl]
    exact ((slots _).add (hcur c rfl) few).2
  case wakeTest o i =>
    obtain ⟨rfl, rfl⟩ := h
    split
    case isTrue => rintro _ ⟨rfl⟩; exact knows
    case isFalse hend =>
      rintro _ ⟨rfl⟩ t ⟨p, hp, hslot⟩
      exact knows p (by omega) t hslot
  case wakeReady o i =>
    obtain ⟨t, ht, rfl, rfl⟩ := h
    rintro _ ⟨rfl⟩ p hp u hu hb
    have hslot : (g.waiters o).slots p = some u := by simpa using hu
    by_cases hut : u = t
    · simp [hut] at hb
    · have hpi : p ≠ i := by
        rintro rfl
        exact hut (Option.some.inj (hslot.symm.trans ht))
      rw [Globals.setState, Globals.modifyTask_of_ne hut] at hb
      exact knows p (by omega) u hslot hb
  case unlockDisown | postCount =>
    obtain ⟨-, rfl⟩ := h
    rintro _ ⟨rfl⟩
    exact fun p hp => absurd hp (Nat.not_lt_zero p)
  all_goals first
    | (obtain ⟨-, rfl⟩ := h; rintro _ ⟨rfl⟩ <;> trivial)
    | (obtain ⟨-, rfl⟩ := h; split <;> rintro _ ⟨rfl⟩ <;> trivial)
    | (obtain ⟨c, -, -, rfl⟩ := h; rintro _ ⟨rfl⟩ <;> trivial)

end Stmt

theorem Globals.Frame.waiters {g g' : Globals} (frame : g.Frame g') (o : Obj) :
    g'.waiters o = g.waiters o := by
  cases o <;> simp [Globals.waiters, frame.mutexes, frame.sems]

theorem Globals.Frame.unavailable {g g' : Globals} (frame : g.Frame g') (o : Obj) :
    g'.Unavailable o ↔ g.Unavailable o := by
  cases o <;> simp [Globals.Unavailable, frame.mutexes, frame.sems]

theorem Stmt.Knows.of_frame {g g' : Globals} {s : Stmt} (knows : s.Knows g)
    (frame : g.Frame g') : s.Knows g' := by
  cases s <;> simp only [Knows, frame.waiters, frame.unavailable] at knows ⊢
  case sleepBlock c =>
    obtain ⟨hlt, hwake, hstate⟩ := knows
    exact ⟨by rwa [frame.numTasks], by rwa [frame.wakeTick c (Or.inl hstate)],
      fun hb => hstate (frame.blocked c hb)⟩
  case wakeTest o i => exact fun p hp t ht hb => knows p hp t ht (frame.blocked t hb)
  case wakeReady o i => exact fun p hp t ht hb => knows p hp t ht (frame.blocked t hb)
  case wakeClear o => exact fun t ht hb => knows t ht (frame.blocked t hb)
  all_goals exact knows

/-- Outside the two windows there is little to know. -/
theorem Stmt.knows_of_quiet {g : Globals} {s : Stmt} (enter : s.entersWait = false)
    (wake : s.midWake = false) (sleep : ∀ c, s = .sleepBlock c → s.Knows g) : s.Knows g := by
  cases s <;> simp only [entersWait, midWake, Bool.true_eq_false] at enter wake
  case sleepBlock c => exact sleep c rfl
  case wakeTest o i | wakeReady o i =>
    obtain rfl : i = 0 := by simpa using wake
    exact fun p hp => absurd hp (Nat.not_lt_zero p)
  all_goals trivial

/-- A statement that belongs to no wait, wake loop or sleep. -/
structure Stmt.Quiet (s : Stmt) : Prop where
  knows : ∀ g, s.Knows g
  entersWait : s.entersWait = false
  wakes : s.wakes = false
  sleeps : s.sleeps = false
  releases : s.releases = none

theorem Stmt.quiet_returnPoint {s : Stmt} (h : s.returnPoint = true) : s.Quiet := by
  cases s <;> cases h <;> exact ⟨fun _ => trivial, rfl, rfl, rfl, rfl⟩

theorem Stmt.quiet_control {b : Bool} {s : Stmt} {succ : List Stmt}
    (h : s.control b = some succ) : s.Quiet ∧ ∀ s' ∈ succ.head?, s'.Quiet := by
  unfold control at h
  split at h <;> cases h <;> refine ⟨⟨fun _ => trivial, rfl, rfl, rfl, rfl⟩, ?_⟩ <;>
    rintro _ ⟨rfl⟩ <;> exact ⟨fun _ => trivial, rfl, rfl, rfl, rfl⟩

/-- A control statement of `task_yield`. -/
theorem Stmt.control_yields {k : Machine} {b : Bool} {s : Stmt} {succ : List Stmt}
    (h : s.control b = some succ) (hs : s.yields = true) :
    ∃ s', succ = [s'] ∧
      (s'.yields = true ∨ (∃ b, s' = .restoreMask b) ∧ s.goesTo k = k.vars.schedCtx) := by
  cases s <;> cases hs <;> cases h
  case yieldBlock => exact ⟨_, rfl, Or.inl rfl⟩
  case yieldSwap => exact ⟨_, rfl, Or.inr ⟨⟨_, rfl⟩, rfl⟩⟩

/-- The statements after which a task is BLOCKED. -/
def Stmt.blocks : Stmt → Bool
  | lockBlock _ _ | waitBlock _ _ | sleepBlock _ => true
  | _ => false

theorem Stmt.exec_state {g g' : Globals} {s : Stmt} {succ : List Stmt}
    (h : s.exec g = some (g', succ)) (hs : s.blocks = false) {j : Nat}
    (hb : (g'.tasks j).state = .blocked) : (g.tasks j).state = .blocked := by
  obtain same | sets | ⟨-, -, ready⟩ := exec_sets h j
  · exact same.symm.trans hb
  · rw [hb] at sets
    cases s <;> simp_all [Stmt.sets, blocks]
  · cases hb.symm.trans ready

/-- `task_yield` up to its `swapcontext`; it returns at once where no task is running. -/
theorem Stmt.exec_yielding {g g' : Globals} {s : Stmt} {succ : List Stmt}
    (h : s.exec g = some (g', succ)) (hs : s.yields = true) :
    (g.currentIdx = none ∧ succ = [] ∨ ∃ s', succ = [s'] ∧ s'.yields = true) ∧
      (g' = g ∨ ∃ c, s = .yieldReady c ∧ (g'.tasks c).state ≠ .blocked) := by
  cases s <;> simp only [yields, Bool.false_eq_true] at hs <;>
    simp only [exec, Option.map_eq_some_iff, Option.some.injEq, Prod.mk.injEq, reduceCtorEq] at h
  case yieldTest =>
    obtain ⟨rfl, rfl⟩ := h
    refine ⟨?_, Or.inl rfl⟩
    split
    case isTrue hnone => exact Or.inl ⟨hnone, rfl⟩
    case isFalse => exact Or.inr ⟨_, rfl, rfl⟩
  case yieldCurrent =>
    obtain ⟨c, -, rfl, rfl⟩ := h
    exact ⟨Or.inr ⟨_, rfl, rfl⟩, Or.inl rfl⟩
  case yieldState c =>
    obtain ⟨rfl, rfl⟩ := h
    split <;> exact ⟨Or.inr ⟨_, rfl, rfl⟩, Or.inl rfl⟩
  case yieldReady c =>
    obtain ⟨rfl, rfl⟩ := h
    exact ⟨Or.inr ⟨_, rfl, rfl⟩, Or.inr ⟨c, rfl, by simp⟩⟩

theorem Stmt.exec_yields {g g' : Globals} {s : Stmt} {succ : List Stmt}
    (h : s.exec g = some (g', succ)) (hs : s.yields = true) (hcur : g.currentIdx ≠ none) :
    (∃ s', succ = [s'] ∧ s'.yields = true) ∧
      (g' = g ∨ ∃ c, s = .yieldReady c ∧ (g'.tasks c).state ≠ .blocked) := by
  obtain ⟨hsucc, hvars⟩ := exec_yielding h hs
  exact ⟨hsucc.resolve_left fun hnone => hcur hnone.1, hvars⟩

theorem Stmt.exec_sleeps {g g' : Globals} {s : Stmt} {succ : List Stmt}
    (h : s.exec g = some (g', succ)) {s' : Stmt} (hs : s' ∈ succ.head?)
    (hsleep : s'.sleeps = true) : s.sleeps = true ∧ succ = [s'] := by
  cases s <;>
    simp only [exec, Option.map_eq_some_iff, Option.some.injEq, Prod.mk.injEq, reduceCtorEq,
      Option.ite_none_right_eq_some] at h
  case sleepTest =>
    obtain ⟨-, rfl⟩ := h
    split at hs
    case isTrue => cases hs
    case isFalse positive =>
      cases hs
      exact ⟨rfl, if_neg positive⟩
  case sleepCurrent =>
    obtain ⟨c, -, -, rfl⟩ := h
    cases hs
    exact ⟨rfl, rfl⟩
  case sleepWake =>
    obtain ⟨-, rfl⟩ := h
    cases hs
    exact ⟨rfl, rfl⟩
  all_goals first
    | (obtain ⟨-, rfl⟩ := h; cases hs <;> cases hsleep)
    | (obtain ⟨-, rfl⟩ := h; split at hs <;> cases hs <;> cases hsleep)
    | (obtain ⟨c, -, -, rfl⟩ := h; cases hs <;> cases hsleep)

end RtosXrce.Kernel
