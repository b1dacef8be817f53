import RtosXrce.Kernel.Control

/-!
# What semaphores admit

`sem_wait` tests the count and takes from it in two statements. As long as no forced switch falls
between the two, a semaphore lets no more calls of `sem_wait` through than it had at the start and
has been given by `sem_post`, whatever the priorities and whatever else is preempted.
-/

namespace RtosXrce.Kernel

open Library

/-- The semaphore whose count the statement takes from. -/
def Stmt.decrements : Stmt → Option SemId
  | waitTake s => some s
  | _ => none

/-- The semaphore whose count the statement adds to. -/
def Stmt.increments : Stmt → Option SemId
  | postCount s => some s
  | _ => none

namespace Stmt

variable {g g' : Globals} {st : Stmt} {succ : List Stmt} {s : SemId}

theorem exec_keeps_count (h : st.exec g = some (g', succ)) (hpass : st.decrements ≠ some s)
    (hpost : st.increments ≠ some s) : (g'.sems s).count = (g.sems s).count := by
  cases exec_stores h with
  | waitTake i =>
    have hne : s ≠ i := fun hs => hpass (hs ▸ rfl)
    simp [hne]
  | postCount i =>
    have hne : s ≠ i := fun hs => hpost (hs ▸ rfl)
    simp [hne]
  | spawn | lockAddWaiter | waitAddWaiter | wakeClear => simp
  | _ => rfl

theorem exec_count (h : st.exec g = some (g', succ)) (s : SemId) :
    (g'.sems s).count = (g.sems s).count + (if st.increments = some s then 1 else 0) -
      (if st.decrements = some s then 1 else 0) := by
  by_cases hpass : st.decrements = some s
  · obtain rfl : st = .waitTake s := by cases st <;> cases hpass; rfl
    cases h
    simp [decrements, increments]
  · by_cases hpost : st.increments = some s
    · obtain rfl : st = .postCount s := by cases st <;> cases hpost; rfl
      cases h
      simp [decrements, increments]
    · rw [exec_keeps_count h hpass hpost, if_neg hpass, if_neg hpost]
      omega

/-- In front of the store a call has just found the count positive. -/
theorem exec_decrements (h : st.exec g = some (g', succ)) {st' : Stmt} (hs : st' ∈ succ)
    (decr : st'.decrements = some s) :
    0 < (g.sems s).count ∧ (g'.sems s).count = (g.sems s).count := by
  obtain rfl : st' = .waitTake s := by cases st' <;> cases decr; rfl
  cases st <;>
    simp only [exec, Option.map_eq_some_iff, Option.some.injEq, Prod.mk.injEq, reduceCtorEq,
      Option.ite_none_right_eq_some] at h
  case waitTest i c =>
    obtain ⟨rfl, rfl⟩ := h
    split at hs
    · simp at hs
    · obtain rfl : s = i := by simpa using hs
      exact ⟨by omega, rfl⟩
  all_goals first
    | obtain ⟨-, rfl⟩ := h
    | obtain ⟨c, -, -, rfl⟩ := h
  all_goals try split at hs
  all_goals simp at hs

end Stmt

/-- Two tasks, preempted at every tick, and semaphores of one permit. -/
def Config.onePermit : Config := { Config.twoTasks with initialCount := fun _ => 1 }

namespace Machine

variable {k k' : Machine} {a : Action} {s : SemId}

/-- The tick does not take the processor from an execution that has found the count positive and has
not taken from it yet. -/
def SparesPass (k : Machine) (a : Action) : Prop :=
  a = .tick → k.tick.cpu ≠ k.cpu → ∀ st ∈ k.next, st.decrements = none

instance (k : Machine) (a : Action) : Decidable (SparesPass k a) :=
  inferInstanceAs (Decidable (_ → _ → _))

/-- How many calls of `sem_wait` a semaphore has let through, and how often it was posted. -/
structure Permits where
  passed : Nat
  posted : Nat
  deriving DecidableEq

def notePermits (s : SemId) (k : Machine) (a : Action) (p : Permits) : Permits :=
  if a = .exec ∧ k.current.handlers = [] then
    { passed := p.passed + if k.next.bind Stmt.decrements = some s then 1 else 0
      posted := p.posted + if k.next.bind Stmt.increments = some s then 1 else 0 }
  else p

def permitting (s : SemId) : System (Machine × Permits) Action := system.watch (notePermits s)

/-- The count is never negative, and found positive only by the execution that has the processor. -/
structure Admits (s : SemId) (k : Machine) : Prop where
  nonneg : 0 ≤ (k.vars.sems s).count
  about : ∀ e, ∀ st ∈ (k.threads e).code.head?, st.decrements = some s →
    e = k.cpu ∧ 0 < (k.vars.sems s).count

theorem admits_start (c : Config) (s : SemId) (initial : 0 ≤ (c.vars.sems s).count) :
    Admits s c.start where
  nonneg := initial
  about e st hst hs := by
    cases e <;> cases hst <;> cases hs

theorem decrements_returnPoint {st : Stmt} (h : st.returnPoint = true) : st.decrements = none := by
  cases st <;> cases h <;> rfl

theorem decrements_control {b : Bool} {st : Stmt} {succ : List Stmt}
    (h : st.control b = some succ) :
    ∀ st' ∈ succ, st'.decrements = none := by
  unfold Stmt.control at h
  split at h <;> cases h <;> simp [Stmt.decrements]

theorem Op.code_decrements (op : Op) : ∀ st ∈ op.code, st.decrements = none := by
  cases op <;> simp [Op.code, Stmt.decrements]

theorem Admits.move (h : Admits s k) {th : Thread}
    (hk : k'.threads = Function.update k.threads k.cpu th)
    (nonneg : 0 ≤ (k'.vars.sems s).count)
    (head : ∀ st ∈ th.code.head?, st.decrements = some s →
      k'.cpu = k.cpu ∧ 0 < (k'.vars.sems s).count) : Admits s k' := by
  refine ⟨nonneg, fun e st hst hs => ?_⟩
  by_cases he : e = k.cpu
  · rw [he, thread_self hk] at hst
    obtain ⟨hcpu, hpos⟩ := head st hst hs
    exact ⟨he.trans hcpu.symm, hpos⟩
  · rw [thread_other hk he] at hst
    exact absurd (h.about e st hst hs).1 he

theorem Admits.step (h : Admits s k) (stacked : Stacked k) (spares : SparesPass k a)
    (hstep : system.step k a = some k') : Admits s k' := by
  obtain ⟨th, hth, moves⟩ := step_moves hstep
  have about : ∀ st ∈ k.current.code.head?, st.decrements = some s → 0 < (k.vars.sems s).count :=
    fun st hst hs => (h.about k.cpu st hst hs).2
  -- what is below the statement that runs does not take from a count
  have later {st : Stmt} {rest succ : List Stmt} (hc : k.current.code = st :: rest)
      (hsucc : ∀ st' ∈ succ.head?, st'.decrements = none) :
      ∀ st' ∈ (succ ++ rest).head?, st'.decrements = none :=
    head_append hsucc fun st' hst' => decrements_returnPoint (stacked.rest hc st' hst')
  cases moves with
  | resume frame cpu code held =>
    refine h.move hth (frame.sems ▸ h.nonneg) fun st hst hs => ?_
    exact ⟨cpu, frame.sems ▸ about st (code ▸ hst) hs⟩
  | tick frame ticked code held =>
    refine h.move hth (frame.sems ▸ h.nonneg) fun st hst hs => ?_
    rw [code] at hst
    refine ⟨?_, frame.sems ▸ about st hst hs⟩
    by_contra cpu
    cases hs.symm.trans (spares rfl (ticked ▸ cpu) st hst)
  | control frame hc hs cpu code held =>
    refine h.move hth (frame.sems ▸ h.nonneg) fun st hst hpass => ?_
    have hnone := later hc (fun st hst => decrements_control hs st (List.mem_of_head? hst)) st
      (code ▸ hst)
    cases hpass.symm.trans hnone
  | exit frame hc cpu code held =>
    refine h.move hth (frame.sems ▸ h.nonneg) fun st hst hs => ?_
    rw [code] at hst
    cases hst
  | @plain st rest succ hh hc he cpu code held =>
    have hcount := Stmt.exec_count he s
    refine h.move hth ?_ fun st' hst' hpass => ⟨cpu, ?_⟩
    · have hnonneg := h.nonneg
      by_cases hpass : st.decrements = some s
      · have hpos := about st (next_eq hc) hpass
        rw [if_pos hpass] at hcount
        split at hcount <;> omega
      · rw [if_neg hpass] at hcount
        split at hcount <;> omega
    · rw [code] at hst'
      cases succ with
      | nil =>
        have hnone := decrements_returnPoint (stacked.rest hc st' (List.mem_of_head? hst'))
        cases hpass.symm.trans hnone
      | cons st'' more =>
        obtain rfl := Option.some.inj hst'
        obtain ⟨hpos, hsame⟩ := Stmt.exec_decrements he List.mem_cons_self hpass
        exact hsame ▸ hpos
  | @call op rest frame cpu hc code held =>
    refine h.move hth (frame.sems ▸ h.nonneg) fun st hst hpass => ?_
    rw [code] at hst
    have hne : op.code ≠ [] := by cases op <;> exact List.cons_ne_nil _ _
    rw [List.head?_append_of_ne_nil _ hne] at hst
    cases hpass.symm.trans (Op.code_decrements op st (List.mem_of_head? hst))

/-- What has been noted accounts for the count. -/
def Counted (s : SemId) (initial : Int) (w : Machine × Permits) : Prop :=
  (w.1.vars.sems s).count = initial + w.2.posted - w.2.passed

theorem notePermits_of_other (p : Permits) {st : Stmt} {rest : List Stmt}
    (hc : k.current.code = st :: rest) (hpass : st.decrements = none)
    (hpost : st.increments = none) :
    notePermits s k a p = p := by
  unfold notePermits
  rw [next_eq hc, Option.bind_some, Option.bind_some, hpass, hpost]
  split <;> rfl

theorem Counted.step {initial : Int} {w w' : Machine × Permits} (h : Counted s initial w)
    (hstep : (permitting s).step w a = some w') : Counted s initial w' := by
  obtain ⟨k', p⟩ := w'
  obtain ⟨hstep, rfl⟩ := System.watch_step hstep
  unfold Counted at h ⊢
  dsimp only at hstep ⊢
  cases step_cases hstep with
  | handlerReturn hh =>
    rw [notePermits, if_neg fun hquiet => by simp [hh] at hquiet]
    exact h
  | entryReturn hh hc => exact (notePermits_of_other w.2 hc rfl rfl).symm ▸ h
  | restoreMask hh hc => exact (notePermits_of_other w.2 hc rfl rfl).symm ▸ h
  | runBlock hh hc => exact (notePermits_of_other w.2 hc rfl rfl).symm ▸ h
  | yieldBlock hh hc => exact (notePermits_of_other w.2 hc rfl rfl).symm ▸ h
  | runSwap hh hc => exact (notePermits_of_other w.2 hc rfl rfl).symm ▸ h
  | yieldSwap hh hc => exact (notePermits_of_other w.2 hc rfl rfl).symm ▸ h
  | exit hh hc => exact (notePermits_of_other w.2 hc rfl rfl).symm ▸ h
  | call hh hc => exact h
  | tick hm => exact (congrArg (fun sems => (sems s).count) w.1.frame_tick.sems).trans h
  | @plain st rest succ g hh hc he =>
    have hcount := Stmt.exec_count he s
    rw [notePermits, if_pos ⟨rfl, hh⟩, next_eq hc, Option.bind_some, Option.bind_some]
    rw [advance_vars, hcount, h]
    push_cast
    split <;> split <;> omega

/-- A semaphore counts: in every run its count is what it had, and has been given, less what it has
let through; without a forced switch between the test and the store it lets no more through than
that. -/
theorem semaphore_admits (c : Config) (s : SemId) (initial : 0 ≤ (c.vars.sems s).count)
    {w : Machine × Permits}
    (h : (permitting s).Reach (fun w a => SparesPass w.1 a) (c.start, ⟨0, 0⟩) w) :
    (w.1.vars.sems s).count = (c.vars.sems s).count + w.2.posted - w.2.passed ∧
      w.2.passed ≤ (c.vars.sems s).count + w.2.posted := by
  have counted : Counted s (c.vars.sems s).count w :=
    h.invariant (by simp [Counted, Config.start]) fun _ _ _ counted _ hstep => counted.step hstep
  have admits : Admits s w.1 :=
    h.unwatch.invariant_with (fun _ => stacked_of_reach) (admits_start c s initial)
      fun _ _ _ stacked admits hok hstep => admits.step stacked hok hstep
  have hnonneg := admits.nonneg
  rw [Counted] at counted
  exact ⟨counted, by omega⟩

/-- The first task takes the only permit and is preempted; the second blocks, and the first gives it
back. -/
def permitRun : List Action :=
  script 7 [(.call (.wait (.named 0)), 3), (.tick, 0), (.call (.wait (.named 0)), 19),
    (.call (.post (.named 0)), 4)]

/-- Both tasks find the permit before either takes it. -/
def overdrawnRun : List Action :=
  script 7 [(.call (.wait (.named 0)), 2), (.tick, 0), (.call (.wait (.named 0)), 3), (.tick, 2)]

theorem semaphore_admits_one :
    ∃ w, (permitting (.named 0)).runGuarded (fun w a => SparesPass w.1 a)
        (Config.onePermit.start, ⟨0, 0⟩) permitRun = some w ∧
      w.2.posted = 1 ∧ w.2.passed ≤ 1 + (1 : Int) := by
  obtain ⟨w, hrun, hposted⟩ : ∃ w, (permitting (.named 0)).runGuarded
      (fun w a => SparesPass w.1 a) (Config.onePermit.start, ⟨0, 0⟩) permitRun = some w ∧
      w.2.posted = 1 :=
    System.exists_of_runGuarded (by decide +kernel)
  have h := (semaphore_admits .onePermit (.named 0) (by decide) (System.reach_of_runGuarded hrun)).2
  rw [hposted] at h
  exact ⟨w, hrun, hposted, h⟩

/-- A forced switch in between lets two calls through on one permit. -/
theorem semaphore_overdrawn :
    ∃ w, (permitting (.named 0)).Reachable (Config.onePermit.start, ⟨0, 0⟩) w ∧
      w.2 = ⟨2, 0⟩ ∧ (w.1.vars.sems (.named 0)).count = -1 := by
  obtain ⟨w, hrun, hover⟩ : ∃ w, (permitting (.named 0)).runGuarded (fun _ _ => True)
      (Config.onePermit.start, ⟨0, 0⟩) overdrawnRun = some w ∧
      w.2 = ⟨2, 0⟩ ∧ (w.1.vars.sems (.named 0)).count = -1 :=
    System.exists_of_runGuarded (by decide +kernel)
  exact ⟨w, System.reach_of_runGuarded hrun, hover⟩

end Machine

end RtosXrce.Kernel
