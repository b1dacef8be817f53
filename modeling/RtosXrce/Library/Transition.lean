import Mathlib.Data.Option.Basic

/-!
# Partial transition systems and guarded runs

A system answers every action with a new state or refuses it. A run is a list of accepted
actions; a guarded run is one in which every action also meets a condition on the state it
was taken in. `Reach.invariant` is how the rest of the development reasons about runs: an
invariant is checked at the start and over one step. What has happened in a run is noted down by an
observer (`watch`).
-/

namespace RtosXrce.Library

/-- `step` is `none` where the action is not enabled. -/
structure System (σ α : Type) where
  step : σ → α → Option σ

namespace System

variable {σ α : Type} (S : System σ α)

/-- The states of the runs from `start` in which every step meets `ok`. -/
inductive Reach (ok : σ → α → Prop) (start : σ) : σ → Prop where
  | refl : Reach ok start start
  | tail {s t : σ} {a : α} :
      Reach ok start s → ok s a → S.step s a = some t → Reach ok start t

/-- The reachable states, with no condition on the steps. -/
abbrev Reachable (start : σ) : σ → Prop := S.Reach (fun _ _ => True) start

/-- Perform the listed actions in order. -/
def run : σ → List α → Option σ
  | s, [] => some s
  | s, a :: as =>
    match S.step s a with
    | some t => run t as
    | none => none

/-- Every action of the list meets `ok` in the state it is taken in. -/
def Guarded (ok : σ → α → Prop) : σ → List α → Prop
  | _, [] => True
  | s, a :: as => ok s a ∧ ∀ t, S.step s a = some t → Guarded ok t as

/-- Perform the listed actions as long as they meet `ok`. -/
def runGuarded (ok : σ → α → Prop) [∀ s a, Decidable (ok s a)] : σ → List α → Option σ
  | s, [] => some s
  | s, a :: as =>
    if ok s a then
      match S.step s a with
      | some t => runGuarded ok t as
      | none => none
    else none

variable {S} {ok : σ → α → Prop} {start : σ}

theorem Reach.invariant {I : σ → Prop} (init : I start)
    (preserved : ∀ s a t, I s → ok s a → S.step s a = some t → I t)
    {s : σ} (h : S.Reach ok start s) : I s := by
  induction h with
  | refl => exact init
  | tail _ hok hstep ih => exact preserved _ _ _ ih hok hstep

/-- An invariant that rests on what is known of the reachable states. -/
theorem Reach.invariant_with {I J : σ → Prop} (known : ∀ s, S.Reach ok start s → J s)
    (init : I start) (preserved : ∀ s a t, J s → I s → ok s a → S.step s a = some t → I t)
    {s : σ} (h : S.Reach ok start s) : I s := by
  induction h with
  | refl => exact init
  | tail hs hok hstep ih => exact preserved _ _ _ (known _ hs) ih hok hstep

theorem Reach.mono {ok' : σ → α → Prop} (weaker : ∀ s a, ok s a → ok' s a) {s : σ}
    (h : S.Reach ok start s) : S.Reach ok' start s := by
  induction h with
  | refl => exact .refl
  | tail _ hok hstep ih => exact ih.tail (weaker _ _ hok) hstep

theorem Reach.trans {s t : σ} (h : S.Reach ok start s) (g : S.Reach ok s t) :
    S.Reach ok start t := by
  induction g with
  | refl => exact h
  | tail _ hok hstep ih => exact ih.tail hok hstep

/-- Steps that keep `I` and lower a measure as long as it is not zero can be taken until it is. -/
theorem Reach.exhaust {I : σ → Prop} (μ : σ → Nat)
    (next : ∀ s, I s → μ s ≠ 0 → ∃ a t, ok s a ∧ S.step s a = some t ∧ I t ∧ μ t < μ s)
    {s : σ} (hs : I s) : ∃ t, S.Reach ok s t ∧ I t ∧ μ t = 0 := by
  induction hn : μ s using Nat.strongRecOn generalizing s with
  | ind n ih =>
    subst hn
    by_cases hzero : μ s = 0
    · exact ⟨s, .refl, hs, hzero⟩
    · obtain ⟨a, t, hok, hstep, ht, hlt⟩ := next s hs hzero
      obtain ⟨u, hreach, hu⟩ := ih _ hlt ht rfl
      exact ⟨u, (Reach.refl.tail hok hstep).trans hreach, hu⟩

/-- The system with an observer that keeps a note of the steps. -/
def watch {τ : Type} (S : System σ α) (note : σ → α → τ → τ) : System (σ × τ) α where
  step s a := (S.step s.1 a).map fun t => (t, note s.1 a s.2)

theorem watch_step {τ : Type} {note : σ → α → τ → τ} {s t : σ × τ} {a : α}
    (h : (S.watch note).step s a = some t) :
    S.step s.1 a = some t.1 ∧ t.2 = note s.1 a s.2 := by
  obtain ⟨u, hu, rfl⟩ := Option.map_eq_some_iff.mp h
  exact ⟨hu, rfl⟩

/-- The observer does not disturb the system. -/
theorem Reach.unwatch_mono {τ : Type} {note : σ → α → τ → τ} {ok' : σ × τ → α → Prop} {s t : σ × τ}
    (weaker : ∀ s a, ok' s a → ok s.1 a) (h : (S.watch note).Reach ok' s t) :
    S.Reach ok s.1 t.1 := by
  induction h with
  | refl => exact .refl
  | tail _ hok hstep ih => exact ih.tail (weaker _ _ hok) (watch_step hstep).1

theorem Reach.unwatch {τ : Type} {note : σ → α → τ → τ} {s t : σ × τ}
    (h : (S.watch note).Reach (fun s a => ok s.1 a) s t) : S.Reach ok s.1 t.1 :=
  h.unwatch_mono fun _ _ hok => hok

/-- Every run can be observed. -/
theorem Reach.watched {τ : Type} {note : σ → α → τ → τ} {s t : σ} (n : τ) (h : S.Reach ok s t) :
    ∃ n', (S.watch note).Reach (fun s a => ok s.1 a) (s, n) (t, n') := by
  induction h with
  | refl => exact ⟨n, .refl⟩
  | @tail u t a _ hok hstep ih =>
    obtain ⟨n', hrun⟩ := ih
    have hmove : (S.watch note).step (u, n') a = some (t, note u a n') :=
      congrArg (Option.map fun t => (t, note u a n')) hstep
    exact ⟨_, hrun.tail hok hmove⟩

theorem reach_of_run {as : List α} {s t : σ} (h : S.run s as = some t)
    (guard : S.Guarded ok s as) : S.Reach ok s t := by
  induction as generalizing s with
  | nil => cases h; exact .refl
  | cons a as ih =>
    unfold run at h
    cases hs : S.step s a with
    | none => simp [hs] at h
    | some u =>
      rw [hs] at h
      exact (Reach.refl.tail guard.1 hs).trans (ih h (guard.2 u hs))

theorem reach_of_runGuarded [∀ s a, Decidable (ok s a)] {as : List α} {s t : σ}
    (h : S.runGuarded ok s as = some t) : S.Reach ok s t := by
  induction as generalizing s with
  | nil => cases h; exact .refl
  | cons a as ih =>
    unfold runGuarded at h
    split at h
    case isTrue hok =>
      cases hs : S.step s a with
      | none => simp [hs] at h
      | some u =>
        rw [hs] at h
        exact (Reach.refl.tail hok hs).trans (ih h)
    case isFalse => cases h

/-- Finds a state of a guarded run by evaluating the run. -/
theorem exists_of_runGuarded [∀ s a, Decidable (ok s a)] {as : List α} {s : σ} {P : σ → Prop}
    [DecidablePred P] (h : (S.runGuarded ok s as).any (fun t => P t) = true) :
    ∃ t, S.runGuarded ok s as = some t ∧ P t := by
  obtain ⟨t, ht, hP⟩ := (Option.any_eq_true _ _).mp h
  exact ⟨t, ht, of_decide_eq_true hP⟩

theorem guarded_true (s : σ) (as : List α) : S.Guarded (fun _ _ => True) s as := by
  induction as generalizing s with
  | nil => trivial
  | cons a as ih => exact ⟨trivial, fun t _ => ih t⟩

theorem reachable_of_run {as : List α} {s t : σ} (h : S.run s as = some t) : S.Reachable s t :=
  reach_of_run h (guarded_true s as)

end System

end RtosXrce.Library
