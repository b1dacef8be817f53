import RtosXrce.Kernel.MutualExclusion

/-!
# The priorities at which mutexes were locked

An observer notes the priority with which each call of `mutex_lock` takes its mutex. In every
cooperative run `owner_saved_priority`, which is stored two statements later, is what was noted.
-/

namespace RtosXrce.Kernel

open Library

/-- The priority with which each mutex was last taken, 0 before the first time. -/
abbrev TakenAt := MutexId → Int

theorem Globals.modifyMutex_field {α : Type} {g : Globals} {m m' : MutexId} {f : Mutex → Mutex}
    (field : Mutex → α) (hf : field (f (g.mutexes m')) = field (g.mutexes m')) :
    field ((g.modifyMutex m' f).mutexes m) = field (g.mutexes m) := by
  by_cases hm : m = m'
  · subst hm
    simpa using hf
  · simp [hm]

namespace Stmt

variable {g g' : Globals} {s : Stmt} {succ : List Stmt} {m : MutexId} {taken : TakenAt}

/-- The caller of `mutex_lock` takes the mutex with the priority it has in front of
`m->locked = 1`. -/
def noteTaking (g : Globals) (taken : TakenAt) : Stmt → TakenAt
  | lockTake m c => Function.update taken m (g.tasks c).priority
  | _ => taken

/-- The mutex that has been taken, and whose `owner_saved_priority` is still the old one. -/
def saves : Stmt → Option MutexId
  | lockOwn m _ | lockSave m _ => some m
  | _ => none

def Noted (g : Globals) (taken : TakenAt) : Stmt → Prop
  | lockOwn m c | lockSave m c => taken m = (g.tasks c).priority
  | _ => True

theorem exec_saves (h : s.exec g = some (g', succ)) :
    (g'.mutexes m).ownerSavedPriority = (g.mutexes m).ownerSavedPriority ∨
      ∃ c, s = .lockSave m c := by
  cases exec_stores h with
  | lockSave m' c =>
    by_cases hm : m = m'
    · exact Or.inr ⟨c, hm ▸ rfl⟩
    · exact Or.inl (congrArg Mutex.ownerSavedPriority (by simp [hm]))
  | lockTake | lockOwn | unlockFree | unlockDisown =>
    exact Or.inl (Globals.modifyMutex_field Mutex.ownerSavedPriority rfl)
  | spawn | lockAddWaiter | waitAddWaiter | wakeClear => exact Or.inl (by simp)
  | _ => exact Or.inl rfl

theorem exec_noted (h : s.exec g = some (g', succ)) (noted : s.Noted g taken) :
    ∀ s' ∈ succ.head?, s'.Noted g' (s.noteTaking g taken) := by
  cases s <;>
    simp only [exec, Option.map_eq_some_iff, Option.some.injEq, Prod.mk.injEq, reduceCtorEq,
      Option.ite_none_right_eq_some] at h
  case lockTake m c =>
    obtain ⟨rfl, rfl⟩ := h
    rintro _ ⟨rfl⟩
    simp [Noted, noteTaking]
  case lockOwn m c =>
    obtain ⟨rfl, rfl⟩ := h
    rintro _ ⟨rfl⟩
    exact noted
  all_goals first
    | (obtain ⟨-, rfl⟩ := h; rintro _ ⟨rfl⟩ <;> trivial)
    | (obtain ⟨-, rfl⟩ := h; split <;> rintro _ ⟨rfl⟩ <;> trivial)
    | (obtain ⟨c, -, -, rfl⟩ := h; rintro _ ⟨rfl⟩ <;> trivial)

theorem exec_saved (h : s.exec g = some (g', succ)) (noted : s.Noted g taken)
    (saved : taken m = (g.mutexes m).ownerSavedPriority ∨ s.saves = some m) :
    s.noteTaking g taken m = (g'.mutexes m).ownerSavedPriority ∨
      succ.head?.bind saves = some m := by
  obtain hsame | ⟨c, rfl⟩ := exec_saves (m := m) h
  · rw [hsame]
    cases s
    case lockTake m' c =>
      cases h
      by_cases hm : m = m'
      · exact Or.inr (congrArg some hm.symm)
      · refine saved.imp (fun hsaved => ?_) nofun
        exact (Function.update_of_ne hm _ _).trans hsaved
    case lockOwn m' c =>
      cases h
      exact saved
    case lockSave m' c =>
      obtain hsaved | hm := saved
      · exact Or.inl hsaved
      · obtain rfl := Option.some.inj hm
        cases h
        left
        exact noted.trans (by simpa using hsame)
    all_goals exact Or.inl (saved.resolve_right nofun)
  · cases h
    left
    simpa [noteTaking] using show taken m = _ from noted

theorem saves_returnPoint (h : s.returnPoint = true) : s.saves = none := by
  cases s <;> first | rfl | cases h

theorem saves_control {b : Bool} (h : s.control b = some succ) :
    s.saves = none ∧ ∀ s' ∈ succ.head?, s'.saves = none := by
  unfold control at h
  split at h <;> cases h <;> simp [saves]

theorem noted_of_saves (h : s.saves = none) : s.Noted g taken := by
  cases s <;> trivial

end Stmt

theorem Op.code_saves (op : Op) : ∀ s ∈ op.code.head?, s.saves = none := by
  cases op <;> rintro _ ⟨rfl⟩ <;> rfl

namespace Machine

variable {k k' : Machine} {a : Action} {w w' : Machine × TakenAt}

def noteTaking (k : Machine) (a : Action) (taken : TakenAt) : TakenAt :=
  if a = .exec ∧ k.current.handlers = [] then k.next.elim taken (·.noteTaking k.vars taken)
  else taken

/-- The machine with the observer. -/
def taking : System (Machine × TakenAt) Action := system.watch noteTaking

/-- What was noted is what `owner_saved_priority` holds, or is about to. -/
structure Recorded (w : Machine × TakenAt) : Prop where
  parked : ∀ e, e ≠ w.1.cpu → ∀ s ∈ (w.1.threads e).code.head?, s.saves = none
  noted : ∀ s ∈ w.1.next, s.Noted w.1.vars w.2
  saved : ∀ m, w.2 m = (w.1.vars.mutexes m).ownerSavedPriority ∨
    w.1.next.bind Stmt.saves = some m

theorem recorded_start (c : Config) : Recorded (c.start, fun _ => 0) where
  parked e _ := by
    cases e <;> rintro _ ⟨rfl⟩ <;> rfl
  noted := by
    rintro _ ⟨rfl⟩
    trivial
  saved m := by
    cases m <;> exact Or.inl rfl

/-- In front of a statement that has not just taken a mutex, the two are the same. -/
theorem Recorded.saved_of_next (h : Recorded w) {s : Stmt} (hs : s ∈ w.1.next)
    (none : s.saves = none) (m : MutexId) :
    w.2 m = (w.1.vars.mutexes m).ownerSavedPriority := by
  refine (h.saved m).resolve_right fun hm => ?_
  rw [hs, Option.bind_some, none] at hm
  cases hm

/-- A step that runs no plain statement. -/
theorem Recorded.of_frame {taken : TakenAt} (h : Recorded (k, taken))
    (frame : k.vars.Frame k'.vars) {th : Thread}
    (hk : k'.threads = Function.update k.threads k.cpu th)
    (code : k'.cpu = k.cpu ∧ th.code = k.current.code ∨
      (∀ s ∈ k.next, s.saves = none) ∧ ∀ s ∈ th.code.head?, s.saves = none) :
    Recorded (k', taken) := by
  obtain ⟨cpu, code⟩ | ⟨hnext, hhead⟩ := code
  · have same : k'.next = k.next := by rw [next_of_stays hk cpu, code]; rfl
    refine ⟨fun e he => ?_, fun s hs => ?_, fun m => ?_⟩
    · have hne : e ≠ k.cpu := cpu ▸ he
      rw [thread_other hk hne]
      exact h.parked e hne
    · have hnoted := h.noted s (same ▸ hs)
      cases s <;> simp only [Stmt.Noted, frame.priority] at hnoted ⊢ <;> exact hnoted
    · rw [frame.mutexes, same]
      exact h.saved m
  · have hquiet : ∀ e, ∀ s ∈ (k'.threads e).code.head?, s.saves = none :=
      forall_threads hk (P := fun t => ∀ s ∈ t.code.head?, s.saves = none) h.parked hhead
    refine ⟨fun e _ => hquiet e, fun s hs => Stmt.noted_of_saves (hquiet _ s hs), fun m => ?_⟩
    rw [frame.mutexes]
    refine Or.inl ((h.saved m).resolve_right fun hm => ?_)
    obtain ⟨s, hs, hsaves⟩ := Option.bind_eq_some_iff.mp hm
    cases (hnext s hs).symm.trans hsaves

theorem Recorded.plain {taken : TakenAt} (h : Recorded (k, taken)) (stacked : Stacked k) {s : Stmt}
    {rest succ : List Stmt} {th : Thread} (hk : k'.threads = Function.update k.threads k.cpu th)
    (hc : k.current.code = s :: rest) (he : s.exec k.vars = some (k'.vars, succ))
    (cpu : k'.cpu = k.cpu) (code : th.code = succ ++ rest) :
    Recorded (k', s.noteTaking k.vars taken) := by
  have hnoted : s.Noted k.vars taken := h.noted s (next_eq hc)
  have hnext' : k'.next = (succ ++ rest).head? := by rw [next_of_stays hk cpu, code]
  have quiet : ∀ s' ∈ rest, s'.saves = none := fun s' hs' =>
    Stmt.saves_returnPoint (stacked.rest hc s' hs')
  refine ⟨fun e he' => ?_, ?_, fun m => ?_⟩
  · have hne : e ≠ k.cpu := cpu ▸ he'
    rw [thread_other hk hne]
    exact h.parked e hne
  · rw [hnext']
    exact head_append (Stmt.exec_noted he hnoted) fun s' hs' => Stmt.noted_of_saves (quiet s' hs')
  · have hsaved := h.saved m
    rw [next_eq hc, Option.bind_some] at hsaved
    rw [hnext']
    refine (Stmt.exec_saved he hnoted hsaved).imp_right fun hm => ?_
    obtain ⟨s', hs', hsaves⟩ := Option.bind_eq_some_iff.mp hm
    rw [head_append_of_some hs']
    exact hsaves

theorem noteTaking_of_next {taken : TakenAt} {s : Stmt} {rest : List Stmt}
    (hc : k.current.code = s :: rest) (hs : s.noteTaking k.vars taken = taken) :
    noteTaking k a taken = taken := by
  unfold noteTaking
  rw [next_eq hc, Option.elim_some, hs, ite_self]

/-- The observer notes nothing but a plain statement. -/
theorem noteTaking_cases (coop : Cooperative a) (hstep : system.step k a = some k')
    (taken : TakenAt) :
    (k.vars.Frame k'.vars ∧ noteTaking k a taken = taken) ∨
      ∃ s rest succ, a = .exec ∧ k.current.handlers = [] ∧ k.current.code = s :: rest ∧
        s.exec k.vars = some (k'.vars, succ) ∧
        noteTaking k a taken = s.noteTaking k.vars taken := by
  obtain ⟨th, hth, moves⟩ := step_moves hstep
  cases moves with
  | resume frame _ _ _ _ handlers =>
    exact Or.inl ⟨frame, if_neg fun hquiet => handlers hquiet.2⟩
  | tick => exact absurd rfl coop
  | @control s _ _ frame hc hs =>
    refine Or.inl ⟨frame, noteTaking_of_next hc ?_⟩
    cases s <;> first | rfl | cases hs
  | exit frame hc => exact Or.inl ⟨frame, noteTaking_of_next hc rfl⟩
  | @plain s rest succ hh hc he =>
    refine Or.inr ⟨s, rest, succ, rfl, hh, hc, he, ?_⟩
    rw [noteTaking, if_pos ⟨rfl, hh⟩, next_eq hc, Option.elim_some]
  | call frame _ hc => exact Or.inl ⟨frame, noteTaking_of_next hc rfl⟩

theorem Recorded.step (h : Recorded w) (stacked : Stacked w.1) (coop : Cooperative a)
    (hstep : taking.step w a = some w') : Recorded w' := by
  obtain ⟨k, taken⟩ := w
  obtain ⟨k', taken'⟩ := w'
  obtain ⟨hstep, rfl⟩ := System.watch_step hstep
  have head : ∀ {s rest}, k.current.code = s :: rest → s.saves = none →
      ∀ s' ∈ k.next, s'.saves = none := by
    intro s rest hc hs s' hs'
    rwa [eq_of_next hc hs']
  obtain ⟨th, hth, moves⟩ := step_moves hstep
  cases moves with
  | resume frame cpu code _ _ handlers =>
    rw [show noteTaking k .exec taken = taken from if_neg fun hquiet => handlers hquiet.2]
    exact h.of_frame frame hth (Or.inl ⟨cpu, code⟩)
  | tick => exact absurd rfl coop
  | @control s rest succ frame hc hs cpu code =>
    obtain ⟨hsaves, hsucc⟩ := Stmt.saves_control hs
    have hnote : noteTaking k .exec taken = taken := by
      refine noteTaking_of_next hc ?_
      cases s <;> first | rfl | cases hs
    rw [hnote]
    refine h.of_frame frame hth (Or.inr ⟨head hc hsaves, ?_⟩)
    rw [code]
    exact head_append hsucc fun s' hs' => Stmt.saves_returnPoint (stacked.rest hc s' hs')
  | exit frame hc cpu code =>
    rw [show noteTaking k .exec taken = taken from noteTaking_of_next hc rfl]
    refine h.of_frame frame hth (Or.inr ⟨head hc rfl, ?_⟩)
    rw [code]
    exact nofun
  | @plain s rest succ hh hc he cpu code =>
    have hnote : noteTaking k .exec taken = s.noteTaking k.vars taken := by
      unfold noteTaking
      rw [if_pos ⟨rfl, hh⟩, next_eq hc, Option.elim_some]
    rw [hnote]
    exact h.plain stacked hth hc he cpu code
  | @call op rest frame cpu hc code =>
    rw [show noteTaking k (.call op) taken = taken from noteTaking_of_next hc rfl]
    refine h.of_frame frame hth (Or.inr ⟨head hc rfl, ?_⟩)
    rw [code]
    refine head_append op.code_saves fun s' hs' => ?_
    rcases List.mem_cons.mp hs' with rfl | hs'
    · rfl
    · exact Stmt.saves_returnPoint (stacked.rest hc s' hs')

theorem recorded_of_reach {c : Config} {ok : Machine × TakenAt → Action → Prop}
    (coop : ∀ w a, ok w a → Cooperative a) (h : taking.Reach ok (c.start, fun _ => 0) w) :
    Recorded w := by
  refine h.invariant_with (J := fun w => Stacked w.1) (fun w h => ?_) (recorded_start c)
    fun w a w' stacked recorded hok hstep => recorded.step stacked (coop w a hok) hstep
  have run : system.Reachable c.start w.1 := h.unwatch_mono fun _ _ _ => trivial
  exact stacked_of_reach run

end Machine

end RtosXrce.Kernel
