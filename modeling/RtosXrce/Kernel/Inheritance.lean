import RtosXrce.Kernel.SavedPriorities

/-!
# Priority inheritance is undone

`mutex_lock` saves the priority its caller has at that moment, `mutex_unlock` restores what was
saved. A task that locks a mutex while it is boosted through another one saves the boosted
priority; where it releases that mutex last, it keeps the boost. In the cooperative runs without
such a release, a task that owns no mutex has the priority it was created with.
-/

namespace RtosXrce.Kernel

open Library

namespace Globals

/-- The task has the priority it was created with. -/
def Unboosted (g : Globals) (t : Nat) : Prop := (g.tasks t).priority = (g.tasks t).created

/-- `t` owns no mutex but `m`. -/
def Sole (g : Globals) (m : MutexId) (t : Nat) : Prop :=
  ∀ m', (g.mutexes m').owner = some t → m' = m

def OwnsNone (g : Globals) (t : Nat) : Prop := ∀ m, (g.mutexes m).owner ≠ some t

theorem Frame.unboosted {g g' : Globals} (frame : g.Frame g') {t : Nat} (h : g.Unboosted t) :
    g'.Unboosted t := by
  rwa [Unboosted, frame.priority, frame.created]

theorem modifyTask_unboosted {g : Globals} {c t : Nat} {f : Task → Task}
    (hf : (f (g.tasks c)).priority = (g.tasks c).priority ∧
      (f (g.tasks c)).created = (g.tasks c).created) (h : g.Unboosted t) :
    (g.modifyTask c f).Unboosted t := by
  by_cases ht : t = c
  · subst ht
    simpa [Unboosted, hf.1, hf.2] using h
  · simpa [Unboosted, ht] using h

end Globals

namespace Stmt

variable {g g' : Globals} {s : Stmt} {succ : List Stmt} {m : MutexId} {e : Exec}

/-- The mutex whose `locked` the statement stores. -/
def storesLocked : Stmt → Option MutexId
  | lockTake m _ | unlockFree m => some m
  | _ => none

/-- The mutex whose `owner` the statement stores. -/
def storesOwner : Stmt → Option MutexId
  | lockOwn m _ | unlockDisown m => some m
  | _ => none

theorem lockTake_or_unlockFree (h : s.storesLocked = some m) :
    (∃ c, s = .lockTake m c) ∨ s = .unlockFree m := by
  cases s <;> cases h
  case lockTake c => exact Or.inl ⟨c, rfl⟩
  case unlockFree => exact Or.inr rfl

theorem lockOwn_or_unlockDisown (h : s.storesOwner = some m) :
    (∃ c, s = .lockOwn m c) ∨ s = .unlockDisown m := by
  cases s <;> cases h
  case lockOwn c => exact Or.inl ⟨c, rfl⟩
  case unlockDisown => exact Or.inr rfl

/-- The mutex whose `mutex_lock` the statement starts. -/
def locks : Stmt → Option MutexId
  | lockCurrent m => some m
  | _ => none

/-- The stores of a priority. -/
def reprioritises : Stmt → Bool
  | lockBoost _ _ | unlockRestore _ _ => true
  | _ => false

theorem exec_owner (h : s.exec g = some (g', succ)) (hs : s.storesOwner ≠ some m) :
    (g'.mutexes m).owner = (g.mutexes m).owner := by
  cases exec_stores h with
  | lockOwn m' | unlockDisown m' =>
    have hne : m ≠ m' := fun hm => hs (hm ▸ rfl)
    simp [hne]
  | lockTake | lockSave | unlockFree => exact Globals.modifyMutex_field _ rfl
  | spawn | lockAddWaiter | waitAddWaiter | wakeClear => simp
  | _ => rfl

theorem exec_keeps_locked (h : s.exec g = some (g', succ)) (hs : s.storesLocked ≠ some m) :
    (g'.mutexes m).locked = (g.mutexes m).locked := by
  cases exec_stores h with
  | lockTake m' | unlockFree m' =>
    have hne : m ≠ m' := fun hm => hs (hm ▸ rfl)
    simp [hne]
  | lockOwn | lockSave | unlockDisown => exact Globals.modifyMutex_field _ rfl
  | spawn | lockAddWaiter | waitAddWaiter | wakeClear => simp
  | _ => rfl

theorem exec_unboosted (h : s.exec g = some (g', succ)) (hs : s.reprioritises = false) {t : Nat}
    (ht : g.Unboosted t) : g'.Unboosted t := by
  cases exec_stores h with
  | lockBoost | unlockRestore => cases hs
  | state | overflow | sleepWake => exact Globals.modifyTask_unboosted ⟨rfl, rfl⟩ ht
  | spawn p =>
    unfold Globals.taskSpawn
    split
    · exact ht
    · by_cases hn : t = g.numTasks
      · simp [Globals.Unboosted, hn, Task.create]
      · simpa [Globals.Unboosted, hn] using ht
  | wakeClear => simpa [Globals.Unboosted] using ht
  | _ => exact ht

theorem exec_created (h : s.exec g = some (g', succ)) {t : Nat} (ht : t < g.numTasks) :
    (g'.tasks t).created = (g.tasks t).created := by
  cases exec_stores h with
  | lockBoost | unlockRestore | state | overflow | sleepWake =>
    exact Globals.modifyTask_field Task.created rfl t
  | spawn p => rw [Globals.taskSpawn_tasks_of_lt _ _ ht]
  | wakeClear => simp
  | _ => rfl

/-- What an execution `e` knows about the mutex it is locking or unlocking. -/
def Undoes (g : Globals) (e : Exec) : Stmt → Prop
  | lockTake m _ => (g.mutexes m).owner = none
  | lockOwn m _ => (g.mutexes m).owner = none ∧ (g.mutexes m).locked = true
  | unlockRestore m c => e = .task c ∧ (g.mutexes m).owner = some c ∧
      (g.Sole m c → (g.mutexes m).ownerSavedPriority = (g.tasks c).created)
  | unlockFree m | unlockDisown m => ∃ t, e = .task t ∧ (g.mutexes m).owner = some t ∧
      (g.Sole m t → g.Unboosted t)
  | _ => True

/-- A mutex with an owner is locked, except between the last two stores of `mutex_unlock`. -/
theorem exec_locked (h : s.exec g = some (g', succ)) (knows : s.Undoes g e)
    (owned : ∀ m, (g.mutexes m).owner ≠ none →
      (g.mutexes m).locked = true ∨ s = .unlockDisown m) (m : MutexId)
    (ho : (g'.mutexes m).owner ≠ none) :
    (g'.mutexes m).locked = true ∨ succ.head? = some (.unlockDisown m) := by
  by_cases hlocked : s.storesLocked = some m
  · obtain ⟨c, rfl⟩ | rfl := lockTake_or_unlockFree hlocked
    · cases h
      simp
    · cases h
      exact Or.inr rfl
  rw [exec_keeps_locked h hlocked]
  by_cases howner : s.storesOwner = some m
  · obtain ⟨c, rfl⟩ | rfl := lockOwn_or_unlockDisown howner
    · exact Or.inl knows.2
    · cases h
      simp at ho
  · rw [exec_owner h howner] at ho
    refine (owned m ho).imp_right ?_
    rintro rfl
    exact absurd rfl howner

/-- A task that has no mutex after a statement has the priority it was created with. -/
theorem exec_ownsNone (h : s.exec g = some (g', succ)) (knows : s.Undoes g e)
    (unboosted : ∀ t, g.OwnsNone t → g.Unboosted t) (t : Nat) (ht : g'.OwnsNone t) :
    g'.Unboosted t := by
  have others : ∀ m, s.storesOwner ≠ some m → (g.mutexes m).owner ≠ some t := fun m hs hm =>
    ht m ((exec_owner h hs).trans hm)
  have same : s.storesOwner = none → g.OwnsNone t := fun hs m =>
    others m (by rw [hs]; exact nofun)
  cases s
  case lockBoost m c =>
    simp only [exec, Option.map_eq_some_iff, Prod.mk.injEq] at h
    obtain ⟨o, ho, rfl, -⟩ := h
    have hne : t ≠ o := fun hto => same rfl m (hto ▸ ho)
    simpa [Globals.Unboosted, hne] using unboosted t (same rfl)
  case unlockRestore m c =>
    cases h
    have hne : t ≠ c := fun htc => same rfl m (htc ▸ knows.2.1)
    simpa [Globals.Unboosted, hne] using unboosted t (same rfl)
  case lockOwn m c =>
    refine exec_unboosted h rfl (unboosted t fun m' hm' => ?_)
    by_cases hm : m' = m
    · rw [hm, knows.1] at hm'
      cases hm'
    · exact others m' (fun hc => hm (Option.some.inj hc).symm) hm'
  case unlockDisown m =>
    obtain ⟨o, -, ho, hsole⟩ := knows
    have others : ∀ m', m' ≠ m → (g.mutexes m').owner ≠ some t := fun m' hm =>
      others m' fun hc => hm (Option.some.inj hc).symm
    refine exec_unboosted h rfl ?_
    by_cases hto : t = o
    · subst hto
      exact hsole fun m' hm' => by_contra fun hm => others m' hm hm'
    · refine unboosted t fun m' hm' => ?_
      by_cases hm : m' = m
      · rw [hm, ho] at hm'
        exact hto (Option.some.inj hm').symm
      · exact others m' hm hm'
  all_goals exact exec_unboosted h rfl (unboosted t (same rfl))

theorem exec_undoes (h : s.exec g = some (g', succ)) (knows : s.Undoes g e)
    (owned : ∀ m, (g.mutexes m).owner ≠ none →
      (g.mutexes m).locked = true ∨ s = .unlockDisown m)
    (unlock : ∀ m, s = .unlockCurrent m → ∀ c ∈ g.currentIdx, (unlockRestore m c).Undoes g e) :
    ∀ s' ∈ succ.head?, s'.Undoes g' e := by
  cases s <;>
    simp only [exec, Option.map_eq_some_iff, Option.some.injEq, Prod.mk.injEq, reduceCtorEq,
      Option.ite_none_right_eq_some] at h
  case lockTest m c =>
    obtain ⟨rfl, rfl⟩ := h
    split
    case isTrue => rintro _ ⟨rfl⟩; trivial
    case isFalse free =>
      rintro _ ⟨rfl⟩
      by_contra ho
      obtain locked | h := owned m ho
      · exact free locked
      · cases h
  case lockTake m c =>
    obtain ⟨rfl, rfl⟩ := h
    rintro _ ⟨rfl⟩
    simpa [Undoes] using knows
  case unlockCurrent m =>
    obtain ⟨c, hc, rfl, rfl⟩ := h
    rintro _ ⟨rfl⟩
    exact unlock m rfl c hc
  case unlockRestore m c =>
    obtain ⟨rfl, rfl⟩ := h
    rintro _ ⟨rfl⟩
    obtain ⟨he, ho, hsole⟩ := knows
    refine ⟨c, he, ho, fun sole => ?_⟩
    simpa [Globals.Unboosted] using hsole sole
  case unlockFree m =>
    obtain ⟨rfl, rfl⟩ := h
    rintro _ ⟨rfl⟩
    obtain ⟨t, he, ho, hsole⟩ := knows
    have howner : ∀ m', ((g.modifyMutex m fun mu => { mu with locked := false }).mutexes m').owner =
        (g.mutexes m').owner := fun m' => Globals.modifyMutex_field Mutex.owner rfl
    refine ⟨t, he, (howner m).trans ho, fun sole => hsole fun m' hm' => ?_⟩
    exact sole m' ((howner m').trans hm')
  all_goals first
    | (obtain ⟨-, rfl⟩ := h; rintro _ ⟨rfl⟩ <;> trivial)
    | (obtain ⟨-, rfl⟩ := h; split <;> rintro _ ⟨rfl⟩ <;> trivial)
    | (obtain ⟨c, -, -, rfl⟩ := h; rintro _ ⟨rfl⟩ <;> trivial)

/-- A statement in front of which there is nothing to know. -/
def steady : Stmt → Bool
  | lockTake _ _ | lockOwn _ _ | unlockRestore _ _ | unlockFree _ | unlockDisown _ => false
  | _ => true

theorem undoes_of_steady (h : s.steady = true) : s.Undoes g e := by
  cases s <;> trivial

theorem Undoes.of_frame {e' : Exec} (knows : s.Undoes g e) (frame : g.Frame g') (he : e' = e) :
    s.Undoes g' e' := by
  subst he
  cases s <;> simp only [Undoes, Globals.Sole, Globals.Unboosted, frame.mutexes, frame.priority,
    frame.created] at knows ⊢ <;> exact knows

theorem steady_returnPoint (h : s.returnPoint = true) : s.steady = true := by
  cases s <;> first | rfl | cases h

theorem steady_control {b : Bool} (h : s.control b = some succ) :
    s.steady = true ∧ ∀ s' ∈ succ.head?, s'.steady = true := by
  unfold control at h
  split at h <;> cases h <;> simp [steady]

end Stmt

theorem Op.code_steady (op : Op) : ∀ s ∈ op.code.head?, s.steady = true := by
  cases op <;> rintro _ ⟨rfl⟩ <;> rfl

namespace Machine

variable {k k' : Machine} {a : Action}

/-- A task unlocks only mutexes it owns. -/
def UnlocksOwned (k : Machine) (a : Action) : Prop :=
  a = .exec → k.current.handlers = [] → ∀ s ∈ k.next, ∀ m ∈ s.unlocks,
    (k.vars.mutexes m).owner = k.vars.currentIdx

instance (k : Machine) (a : Action) : Decidable (UnlocksOwned k a) :=
  inferInstanceAs (Decidable (_ → _ → _))

/-- A task that starts to unlock the only mutex it owns took it at its creation priority. -/
def LastUnboosted (w : Machine × TakenAt) (a : Action) : Prop :=
  a = .exec → w.1.current.handlers = [] → ∀ s ∈ w.1.next, ∀ m ∈ s.unlocks,
    ∀ t ∈ w.1.vars.currentIdx, w.1.vars.Sole m t → w.2 m = (w.1.vars.tasks t).created

structure Undone (k : Machine) : Prop where
  parked : ∀ e, e ≠ k.cpu → ∀ s ∈ (k.threads e).code.head?, s.steady = true
  owned : ∀ m, (k.vars.mutexes m).owner ≠ none →
    (k.vars.mutexes m).locked = true ∨ k.next = some (.unlockDisown m)
  knows : ∀ s ∈ k.next, s.Undoes k.vars k.cpu
  unboosted : ∀ t, k.vars.OwnsNone t → k.vars.Unboosted t

theorem undone_start (c : Config) : Undone c.start where
  parked e _ := by
    cases e <;> rintro _ ⟨rfl⟩ <;> rfl
  owned m ho := by
    cases m <;> exact absurd rfl ho
  knows := by
    rintro _ ⟨rfl⟩
    trivial
  unboosted _ _ := rfl

/-- A step that runs no plain statement. -/
theorem Undone.of_frame (h : Undone k) (frame : k.vars.Frame k'.vars) {th : Thread}
    (hk : k'.threads = Function.update k.threads k.cpu th)
    (code : k'.cpu = k.cpu ∧ th.code = k.current.code ∨
      (∀ s ∈ k.next, s.steady = true) ∧ ∀ s ∈ th.code.head?, s.steady = true) : Undone k' := by
  have unboosted : ∀ t, k'.vars.OwnsNone t → k'.vars.Unboosted t := fun t ht => by
    rw [Globals.OwnsNone, frame.mutexes] at ht
    exact frame.unboosted (h.unboosted t ht)
  obtain ⟨cpu, code⟩ | ⟨hnext, hhead⟩ := code
  · have same : k'.next = k.next := by rw [next_of_stays hk cpu, code]; rfl
    refine ⟨fun e he => ?_, ?_, fun s hs => ?_, unboosted⟩
    · have hne : e ≠ k.cpu := cpu ▸ he
      rw [thread_other hk hne]
      exact h.parked e hne
    · rw [same, frame.mutexes]
      exact h.owned
    · rw [same] at hs
      exact (h.knows s hs).of_frame frame cpu
  · have hsteady : ∀ e, ∀ s ∈ (k'.threads e).code.head?, s.steady = true :=
      forall_threads hk (P := fun t => ∀ s ∈ t.code.head?, s.steady = true) h.parked hhead
    refine ⟨fun e _ => hsteady e, fun m ho => ?_,
      fun s hs => Stmt.undoes_of_steady (hsteady _ s hs), unboosted⟩
    rw [frame.mutexes] at ho ⊢
    refine (h.owned m ho).imp_right fun hn => ?_
    cases hnext _ hn

/-- Outside of `scheduler_run` the running task is the one that `g_current_idx` names. -/
theorem Wf.cpu_of_idx (wf : Wf k) {s : Stmt} {rest : List Stmt} (hc : k.current.code = s :: rest)
    (hs : s.isRun = false) (hmask : ∀ b, s ≠ .restoreMask b) {c : Nat}
    (hidx : c ∈ k.vars.currentIdx) : k.cpu = .task c := by
  cases hcpu : k.cpu with
  | sched => exact absurd hcpu (wf.cpu_ne_sched hc hs hmask)
  | task i => rw [Option.some.inj ((wf.running i hcpu).2.1.symm.trans hidx)]

theorem Undone.plain {taken : TakenAt} (h : Undone k) (wf : Wf k) (stacked : Stacked k)
    (recorded : Recorded (k, taken)) (own : UnlocksOwned k .exec)
    (last : LastUnboosted (k, taken) .exec) {s : Stmt} {rest succ : List Stmt} {th : Thread}
    (hk : k'.threads = Function.update k.threads k.cpu th) (hh : k.current.handlers = [])
    (hc : k.current.code = s :: rest) (he : s.exec k.vars = some (k'.vars, succ))
    (cpu : k'.cpu = k.cpu) (code : th.code = succ ++ rest) : Undone k' := by
  have hnext : s ∈ k.next := next_eq hc
  have hknows := h.knows s hnext
  have hnext' : k'.next = (succ ++ rest).head? := by rw [next_of_stays hk cpu, code]
  have owned : ∀ m, (k.vars.mutexes m).owner ≠ none →
      (k.vars.mutexes m).locked = true ∨ s = .unlockDisown m := fun m ho =>
    (h.owned m ho).imp_right fun hn => Option.some.inj (hnext.symm.trans hn)
  have unlock : ∀ m, s = .unlockCurrent m → ∀ c ∈ k.vars.currentIdx,
      (Stmt.unlockRestore m c).Undoes k.vars k.cpu := by
    rintro m rfl c hidx
    have hsaved : taken m = (k.vars.mutexes m).ownerSavedPriority :=
      recorded.saved_of_next hnext rfl m
    refine ⟨wf.cpu_of_idx hc rfl nofun hidx, (own rfl hh _ hnext m rfl).trans hidx, fun sole => ?_⟩
    exact hsaved.symm.trans (last rfl hh _ hnext m rfl c hidx sole)
  refine ⟨fun e he' => ?_, fun m ho => ?_, ?_, Stmt.exec_ownsNone he hknows h.unboosted⟩
  · have hne : e ≠ k.cpu := cpu ▸ he'
    rw [thread_other hk hne]
    exact h.parked e hne
  · rw [hnext']
    exact (Stmt.exec_locked he hknows owned m ho).imp_right fun hd => head_append_of_some hd
  · rw [hnext', cpu]
    exact head_append (Stmt.exec_undoes he hknows owned unlock) fun s' hs' =>
      Stmt.undoes_of_steady (Stmt.steady_returnPoint (stacked.rest hc s' hs'))

theorem Undone.step {taken : TakenAt} (h : Undone k) (wf : Wf k) (stacked : Stacked k)
    (recorded : Recorded (k, taken)) (coop : Cooperative a) (own : UnlocksOwned k a)
    (last : LastUnboosted (k, taken) a) (hstep : system.step k a = some k') : Undone k' := by
  have head : ∀ {s rest}, k.current.code = s :: rest → s.steady = true →
      ∀ s' ∈ k.next, s'.steady = true := by
    intro s rest hc hs s' hs'
    rwa [eq_of_next hc hs']
  obtain ⟨th, hth, moves⟩ := step_moves hstep
  cases moves with
  | resume frame cpu code => exact h.of_frame frame hth (Or.inl ⟨cpu, code⟩)
  | tick => exact absurd rfl coop
  | control frame hc hs cpu code =>
    obtain ⟨hsteady, hsucc⟩ := Stmt.steady_control hs
    refine h.of_frame frame hth (Or.inr ⟨head hc hsteady, ?_⟩)
    rw [code]
    exact head_append hsucc fun s' hs' => Stmt.steady_returnPoint (stacked.rest hc s' hs')
  | exit frame hc cpu code =>
    refine h.of_frame frame hth (Or.inr ⟨head hc rfl, ?_⟩)
    rw [code]
    exact nofun
  | plain hh hc he cpu code => exact h.plain wf stacked recorded own last hth hh hc he cpu code
  | @call op rest frame cpu hc code =>
    refine h.of_frame frame hth (Or.inr ⟨head hc rfl, ?_⟩)
    rw [code]
    refine head_append op.code_steady fun s' hs' => ?_
    rcases List.mem_cons.mp hs' with rfl | hs'
    · rfl
    · exact Stmt.steady_returnPoint (stacked.rest hc s' hs')

/-- In a cooperative run in which no task unlocks last a mutex that it took while boosted, a task
that owns no mutex has the priority it was created with. -/
theorem inheritance_undone (c : Config) {w : Machine × TakenAt}
    (h : taking.Reach (fun w a => Cooperative a ∧ UnlocksOwned w.1 a ∧ LastUnboosted w a)
      (c.start, fun _ => 0) w) (t : Nat) (none : w.1.vars.OwnsNone t) :
    (w.1.vars.tasks t).priority = (w.1.vars.tasks t).created := by
  have undone : Undone w.1 := by
    refine h.invariant_with (I := fun w => Undone w.1)
      (J := fun w => Wf w.1 ∧ Stacked w.1 ∧ Recorded w) (fun w h => ?_) (undone_start c)
      fun w a w' ⟨wf, stacked, recorded⟩ undone ⟨coop, own, last⟩ hstep =>
        undone.step wf stacked recorded coop own last (System.watch_step hstep).1
    have run : system.Reach (fun _ a => Cooperative a) c.start w.1 :=
      h.unwatch_mono fun _ _ hok => hok.1
    exact ⟨wf_of_reach (fun k _ coop => coop.ticksTasks k) run, stacked_of_reach run,
      recorded_of_reach (fun _ _ hok => hok.1) h⟩
  exact undone.unboosted t none

/-! ## One mutex at a time -/

/-- A task becomes the owner of a mutex only while it owns none. -/
def OwnsAlone (k : Machine) (a : Action) : Prop :=
  a = .exec → k.current.handlers = [] → ∀ m c, k.next = some (.lockOwn m c) → k.vars.OwnsNone c

/-- Every mutex was taken at the creation priority of its owner. -/
def TakenUnboosted (w : Machine × TakenAt) : Prop :=
  ∀ m t, (w.1.vars.mutexes m).owner = some t →
    t < w.1.vars.numTasks ∧ w.2 m = (w.1.vars.tasks t).created

theorem TakenUnboosted.of_frame {taken : TakenAt} (h : TakenUnboosted (k, taken))
    (frame : k.vars.Frame k'.vars) : TakenUnboosted (k', taken) := by
  intro m t ho
  rw [frame.mutexes] at ho
  rw [frame.numTasks, frame.created]
  exact h m t ho

theorem TakenUnboosted.plain {taken : TakenAt} (h : TakenUnboosted (k, taken)) (wf : Wf k)
    (undone : Undone k) (recorded : Recorded (k, taken)) (alone : OwnsAlone k .exec) {s : Stmt}
    {rest succ : List Stmt} (hh : k.current.handlers = []) (hc : k.current.code = s :: rest)
    (he : s.exec k.vars = some (k'.vars, succ)) :
    TakenUnboosted (k', s.noteTaking k.vars taken) := by
  have hnext : s ∈ k.next := next_eq hc
  intro m t ho
  by_cases howner : s.storesOwner = some m
  · obtain ⟨c, rfl⟩ | rfl := Stmt.lockOwn_or_unlockDisown howner
    · have hnoted : taken m = (k.vars.tasks c).priority := recorded.noted _ hnext
      have hunboosted := undone.unboosted c (alone rfl hh m c hnext)
      have hlt := (wf.running c (wf.exec_of_cur hnext rfl)).1
      obtain ⟨hvars, -⟩ := Prod.mk.inj (Option.some.inj he)
      rw [← hvars] at ho ⊢
      obtain rfl : c = t := by simpa using ho
      exact ⟨hlt, hnoted.trans hunboosted⟩
    · obtain ⟨hvars, -⟩ := Prod.mk.inj (Option.some.inj he)
      rw [← hvars] at ho
      simp at ho
  · rw [Stmt.exec_owner he howner] at ho
    obtain ⟨hlt, htaken⟩ := h m t ho
    refine ⟨Nat.lt_of_lt_of_le hlt (Stmt.exec_table he wf.few wf.contexts).1, ?_⟩
    rw [Stmt.exec_created he hlt, ← htaken]
    cases s
    case lockTake m' c =>
      refine Function.update_of_ne (fun hm => ?_) _ _
      have hnone : (k.vars.mutexes m').owner = none := undone.knows _ hnext
      rw [hm, hnone] at ho
      cases ho
    all_goals rfl

theorem TakenUnboosted.step {w w' : Machine × TakenAt} (h : TakenUnboosted w) (wf : Wf w.1)
    (undone : Undone w.1) (recorded : Recorded w) (coop : Cooperative a)
    (alone : OwnsAlone w.1 a) (hstep : taking.step w a = some w') : TakenUnboosted w' := by
  obtain ⟨k, taken⟩ := w
  obtain ⟨k', taken'⟩ := w'
  obtain ⟨hstep, rfl⟩ := System.watch_step hstep
  obtain ⟨frame, hnote⟩ | ⟨s, rest, succ, rfl, hh, hc, he, hnote⟩ :=
    noteTaking_cases coop hstep taken <;> rw [hnote]
  · exact h.of_frame frame
  · exact h.plain wf undone recorded alone hh hc he

/-- In a cooperative run in which no task owns two mutexes at once, a task that owns none has the
priority it was created with. -/
theorem undone_alone {c : Config}
    (h : system.Reach (fun k a => Cooperative a ∧ UnlocksOwned k a ∧ OwnsAlone k a) c.start k)
    (t : Nat) (none : k.vars.OwnsNone t) :
    (k.vars.tasks t).priority = (k.vars.tasks t).created := by
  obtain ⟨taken, h⟩ : ∃ taken, taking.Reach (fun w a => Cooperative a ∧ UnlocksOwned w.1 a ∧
      OwnsAlone w.1 a) (c.start, fun _ => 0) (k, taken) := h.watched _
  suffices both : Undone k ∧ TakenUnboosted (k, taken) from both.1.unboosted t none
  refine System.Reach.invariant_with (S := taking)
    (I := fun w => Undone w.1 ∧ TakenUnboosted w)
    (J := fun w => Wf w.1 ∧ Stacked w.1 ∧ Recorded w) (fun w h => ?_) ⟨undone_start c, ?_⟩
    (fun w a w' ⟨wf, stacked, recorded⟩ ⟨undone, level⟩ ⟨coop, own, alone⟩ hstep => ?_) h
  · have run : system.Reach (fun _ a => Cooperative a) c.start w.1 :=
      h.unwatch_mono fun _ _ hok => hok.1
    exact ⟨wf_of_reach (fun k _ coop => coop.ticksTasks k) run, stacked_of_reach run,
      recorded_of_reach (fun _ _ hok => hok.1) h⟩
  · intro m t ho
    cases m <;> cases ho
  · refine ⟨?_, level.step wf undone recorded coop alone hstep⟩
    refine undone.step wf stacked recorded coop own ?_ (System.watch_step hstep).1
    intro ha hh s hs m hm t ht _
    exact (level m t ((own ha hh s hs m hm).trans ht)).2

end Machine

/-- The mutex a statement stands inside: after the store of `owner`, before it is history, or after
the start of `mutex_unlock`, before the store of NULL. -/
def Stmt.owns : Stmt → Option MutexId
  | lockSave m _ | unlockRestore m _ | unlockFree m | unlockDisown m => some m
  | _ => none

/-- The thread holds `m`, or is about to, or has started to give it up. -/
def Thread.owns (m : MutexId) (th : Thread) : Prop :=
  m ∈ th.held ∨ th.code.head?.bind Stmt.owns = some m

theorem Stmt.owns_control {b : Bool} {s : Stmt} {succ : List Stmt} (h : s.control b = some succ) :
    s.owns = none := by
  unfold control at h
  split at h <;> first | rfl | cases h

theorem Stmt.exec_owns {g g' : Globals} {s : Stmt} {succ : List Stmt} {m : MutexId}
    {held : List MutexId} (h : s.exec g = some (g', succ)) (hs : s.storesOwner ≠ some m)
    (hm : m ∈ held ∨ s.owns = some m) :
    m ∈ s.heldAfter held ∨ succ.head?.bind owns = some m := by
  cases s
  case lockSave m' c =>
    left
    obtain hm | hm := hm
    · exact List.mem_cons_of_mem _ hm
    · rw [Option.some.inj hm]
      exact List.mem_cons_self
  case unlockCurrent m' =>
    obtain ⟨c, -, hout⟩ := Option.map_eq_some_iff.mp h
    obtain ⟨-, rfl⟩ := Prod.mk.inj hout
    obtain hm | hm := hm
    · by_cases heq : m' = m
      · exact Or.inr (congrArg some heq)
      · exact Or.inl ((List.mem_erase_of_ne (Ne.symm heq)).mpr hm)
    · cases hm
  case unlockRestore m' c | unlockFree m' =>
    cases h
    exact hm
  case unlockDisown m' =>
    obtain hm | hm := hm
    · exact Or.inl hm
    · exact absurd hm hs
  all_goals exact hm.imp_right nofun

/-- A new owner is the running task, and the statement that follows is its own. -/
theorem Stmt.exec_storesOwner {g g' : Globals} {s : Stmt} {succ : List Stmt} {m : MutexId} {t : Nat}
    (h : s.exec g = some (g', succ)) (hs : s.storesOwner = some m)
    (ho : (g'.mutexes m).owner = some t) : t ∈ s.cur ∧ succ.head?.bind owns = some m := by
  obtain ⟨c, rfl⟩ | rfl := lockOwn_or_unlockDisown hs
  · cases h
    obtain rfl : c = t := by simpa using ho
    exact ⟨rfl, rfl⟩
  · cases h
    simp at ho

namespace Machine

variable {k k' : Machine} {a : Action}

/-- The task that the `owner` of a mutex names is the one that holds it. -/
def OwnersHold (k : Machine) : Prop :=
  ∀ m t, (k.vars.mutexes m).owner = some t → (k.threads (.task t)).owns m

theorem ownersHold_start (c : Config) : OwnersHold c.start := by
  intro m t ho
  cases m <;> cases ho

theorem OwnersHold.step (h : OwnersHold k) (wf : Wf k) (hstep : system.step k a = some k') :
    OwnersHold k' := by
  obtain ⟨th, hth, moves⟩ := step_moves hstep
  have keep : (∀ m t, (k'.vars.mutexes m).owner = some t → k.cpu ≠ .task t →
        (k.vars.mutexes m).owner = some t) →
      (∀ m t, (k'.vars.mutexes m).owner = some t → k.cpu = .task t → th.owns m) →
      OwnersHold k' := by
    intro other self m t ho
    rw [hth]
    by_cases ht : k.cpu = .task t
    · simpa [ht] using self m t ho ht
    · simpa [Ne.symm ht] using h m t (other m t ho ht)
  have current_owns : ∀ m t, (k.vars.mutexes m).owner = some t → k.cpu = .task t →
      k.current.owns m := fun m t ho ht => by
    rw [current, ht]
    exact h m t ho
  have quiet : ∀ {s rest}, k.current.code = s :: rest → s.owns = none →
      th.held = k.current.held → ∀ {m}, k.current.owns m → th.owns m := by
    intro s rest hc hs held m hm
    left
    rw [held]
    simpa [Thread.owns, hc, hs] using hm
  cases moves with
  | resume frame _ code held | tick frame _ code held =>
    refine keep (fun m t ho _ => by rwa [frame.mutexes] at ho) fun m t ho ht => ?_
    rw [frame.mutexes] at ho
    have := current_owns m t ho ht
    rwa [Thread.owns, ← code, ← held] at this
  | control frame hc hs _ _ held =>
    refine keep (fun m t ho _ => by rwa [frame.mutexes] at ho) fun m t ho ht => ?_
    rw [frame.mutexes] at ho
    exact quiet hc (Stmt.owns_control hs) held (current_owns m t ho ht)
  | exit frame hc _ _ held | call frame _ hc _ held =>
    refine keep (fun m t ho _ => by rwa [frame.mutexes] at ho) fun m t ho ht => ?_
    rw [frame.mutexes] at ho
    exact quiet hc rfl held (current_owns m t ho ht)
  | @plain s rest succ _ hc he _ code held =>
    have hhead : s ∈ (k.threads k.cpu).code.head? := next_eq hc
    have stored : ∀ m t, (k'.vars.mutexes m).owner = some t → s.storesOwner = some m →
        k.cpu = .task t ∧ succ.head?.bind Stmt.owns = some m := fun m t ho hs => by
      obtain ⟨hcur, howns⟩ := Stmt.exec_storesOwner he hs ho
      exact ⟨wf.exec_of_cur hhead hcur, howns⟩
    have grown : ∀ {m}, m ∈ s.heldAfter k.current.held ∨ succ.head?.bind Stmt.owns = some m →
        th.owns m := by
      intro m hm
      rw [Thread.owns, held, code]
      refine hm.imp_right fun hsucc => ?_
      obtain ⟨s', hs', hm'⟩ := Option.bind_eq_some_iff.mp hsucc
      rw [show (succ ++ rest).head? = some s' from head_append_of_some hs']
      exact hm'
    refine keep (fun m t ho ht => ?_) fun m t ho ht => ?_
    · rwa [Stmt.exec_owner he fun hs => ht (stored m t ho hs).1] at ho
    · by_cases hs : s.storesOwner = some m
      · exact grown (Or.inr (stored m t ho hs).2)
      · rw [Stmt.exec_owner he hs] at ho
        have := current_owns m t ho ht
        rw [Thread.owns, hc] at this
        exact grown (Stmt.exec_owns he hs this)

theorem ownersHold_of_reach {c : Config} {ok : Machine → Action → Prop}
    (coop : ∀ k a, ok k a → Cooperative a) (h : system.Reach ok c.start k) : OwnersHold k :=
  h.invariant_with (fun _ => wf_of_reach fun k a hok => (coop k a hok).ticksTasks k)
    (ownersHold_start c) fun _ _ _ wf hold _ hstep => hold.step wf hstep

/-- In every cooperative run, a task outside all its critical sections owns no mutex. -/
theorem ownsNone_of_held {c : Config} {ok : Machine → Action → Prop}
    (coop : ∀ k a, ok k a → Cooperative a) (h : system.Reach ok c.start k) {t : Nat}
    (held : (k.threads (.task t)).held = [])
    (head : (k.threads (.task t)).code.head?.bind Stmt.owns = none) : k.vars.OwnsNone t := by
  intro m ho
  obtain hm | hm := ownersHold_of_reach coop h m t ho
  · rw [held] at hm
    cases hm
  · rw [head] at hm
    cases hm

/-- A task does not lock a mutex it owns. -/
def NeverRelocks (k : Machine) (a : Action) : Prop :=
  a = .exec → k.current.handlers = [] → ∀ s ∈ k.next, ∀ m ∈ s.locks,
    (k.vars.mutexes m).owner ≠ k.vars.currentIdx

instance (k : Machine) (a : Action) : Decidable (NeverRelocks k a) :=
  inferInstanceAs (Decidable (_ → _ → _))

/-- A stronger form of `LastUnboosted` that can be evaluated. -/
def AlwaysUnboosted (w : Machine × TakenAt) (a : Action) : Prop :=
  a = .exec → w.1.current.handlers = [] → ∀ s ∈ w.1.next, ∀ m ∈ s.unlocks,
    ∀ t ∈ w.1.vars.currentIdx, w.2 m = (w.1.vars.tasks t).created

instance (w : Machine × TakenAt) (a : Action) : Decidable (AlwaysUnboosted w a) :=
  inferInstanceAs (Decidable (_ → _ → _))

/-- The high task waits on a semaphore; the low task locks a mutex, posts and yields; the high task
blocks on the mutex and boosts the low task. -/
def boostRun : List (Action × Nat) :=
  [(.call (.wait (.named 0)), 18), (.call (.lock (.named 0)), 5), (.call (.post (.named 0)), 5),
    (.call .yield, 18), (.call (.lock (.named 0)), 21)]

/-- The low task unlocks the mutex. -/
def undoneRun : List Action :=
  script 7 (boostRun ++ [(.call (.unlock (.named 0)), 4)])

/-- The low task locks a second mutex, unlocks the first and then the second. -/
def keptRun : List Action :=
  script 7 (boostRun ++ [(.call (.lock (.named 1)), 5), (.call (.unlock (.named 0)), 8),
    (.call (.unlock (.named 1)), 4)])

theorem inheritance_undone_boosted :
    ∃ w, taking.Reach (fun w a => Cooperative a ∧ UnlocksOwned w.1 a ∧ LastUnboosted w a)
        (Config.lowHigh.start, fun _ => 0) w ∧ w.1.vars.OwnsNone 0 ∧
      1 ∈ w.1.vars.waiters (.mutex (.named 0)) ∧
      (w.1.vars.tasks 0).priority = (w.1.vars.tasks 0).created := by
  obtain ⟨w, hrun, held, head, waits⟩ : ∃ w, taking.runGuarded
      (fun w a => Cooperative a ∧ UnlocksOwned w.1 a ∧ AlwaysUnboosted w a)
        (Config.lowHigh.start, fun _ => 0) undoneRun = some w ∧
      (w.1.threads (.task 0)).held = [] ∧
      (w.1.threads (.task 0)).code.head?.bind Stmt.owns = none ∧
      1 ∈ w.1.vars.waiters (.mutex (.named 0)) :=
    System.exists_of_runGuarded (by decide +kernel)
  have reach : taking.Reach (fun w a => Cooperative a ∧ UnlocksOwned w.1 a ∧ LastUnboosted w a)
      (Config.lowHigh.start, fun _ => 0) w :=
    (System.reach_of_runGuarded hrun).mono fun w a ⟨coop, own, always⟩ =>
      ⟨coop, own, fun ha hh s hs m hm t ht _ => always ha hh s hs m hm t ht⟩
  have run : system.Reach (fun _ a => Cooperative a) Config.lowHigh.start w.1 :=
    reach.unwatch_mono fun _ _ hok => hok.1
  have none := ownsNone_of_held (fun _ _ coop => coop) run held head
  exact ⟨w, reach, none, waits, inheritance_undone _ reach 0 none⟩

/-- The second mutex was locked at the boosted priority and is unlocked last. -/
theorem boost_kept :
    ∃ k, system.Reach (fun k a => Cooperative a ∧ UnlocksOwned k a ∧ NeverRelocks k a)
        Config.lowHigh.start k ∧ k.vars.OwnsNone 0 ∧
      (k.vars.tasks 0).priority = 10 ∧ (k.vars.tasks 0).created = 1 := by
  obtain ⟨k, hrun, held, head, hpriority, hcreated⟩ : ∃ k, system.runGuarded
      (fun k a => Cooperative a ∧ UnlocksOwned k a ∧ NeverRelocks k a)
        Config.lowHigh.start keptRun = some k ∧ (k.threads (.task 0)).held = [] ∧
      (k.threads (.task 0)).code.head?.bind Stmt.owns = none ∧
      (k.vars.tasks 0).priority = 10 ∧ (k.vars.tasks 0).created = 1 :=
    System.exists_of_runGuarded (by decide +kernel)
  have reach := System.reach_of_runGuarded hrun
  exact ⟨k, reach, ownsNone_of_held (fun _ _ h => h.1) reach held head, hpriority, hcreated⟩

end Machine

end RtosXrce.Kernel
