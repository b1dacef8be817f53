import Mathlib.Data.List.Basic

/-!
# Stateful steps that may fail

A step that fails keeps the state it had reached, as a C function does that returns `false` after
it has already changed what its arguments point to.
-/

namespace RtosXrce.Library

abbrev Fallible (σ : Type) := OptionT (StateM σ)

namespace Fallible

variable {σ α β : Type}

/-- Run a step: its result, if it has one, and the state it leaves in either case. -/
def exec (m : Fallible σ α) (s : σ) : Option α × σ := m.run.run s

theorem exec_bind (m : Fallible σ α) (k : α → Fallible σ β) (s : σ) :
    exec (m >>= k) s = match exec m s with
      | (some a, s') => exec (k a) s'
      | (none, s') => (none, s') := by
  change (match (m.run.run s) with
      | (x, s') => (match x with
        | some a => (k a).run
        | none => (pure none : StateM σ (Option β))).run s') = _
  rw [exec]
  obtain ⟨x, s'⟩ := m.run.run s
  cases x <;> rfl

theorem exec_bind_of_some {m : Fallible σ α} {k : α → Fallible σ β} {s s' : σ} {a : α}
    (h : exec m s = (some a, s')) : exec (m >>= k) s = exec (k a) s' := by
  rw [exec_bind, h]

theorem exec_bind_of_none {m : Fallible σ α} {k : α → Fallible σ β} {s s' : σ}
    (h : exec m s = (none, s')) : exec (m >>= k) s = (none, s') := by
  rw [exec_bind, h]

theorem exec_modify (f : σ → σ) (k : Fallible σ α) (s : σ) :
    exec (do modify f; k) s = exec k (f s) := rfl

theorem exec_ite (p : Prop) [Decidable p] (m n : Fallible σ α) (s : σ) :
    exec (if p then m else n) s = if p then exec m s else exec n s := by
  split <;> rfl

theorem exec_bind_eq_some {m : Fallible σ α} {k : α → Fallible σ β} {s s' : σ} {b : β}
    (h : exec (m >>= k) s = (some b, s')) :
    ∃ a u, exec m s = (some a, u) ∧ exec (k a) u = (some b, s') := by
  rcases hm : exec m s with ⟨_ | a, u⟩
  · rw [exec_bind_of_none hm] at h
    exact absurd (congrArg Prod.fst h) (by simp)
  · exact ⟨a, u, rfl, (exec_bind_of_some hm).symm.trans h⟩

/-! ## Simulation

A step simulates another when, from states that `R` relates, both have the same result and leave
states that `R` relates, whether they fail or not.
-/

section

variable {τ : Type} {R : σ → τ → Prop}

def Simulates (R : σ → τ → Prop) (m : Fallible σ α) (n : Fallible τ α) : Prop :=
  ∀ s t, R s t → (exec m s).1 = (exec n t).1 ∧ R (exec m s).2 (exec n t).2

theorem Simulates.pure (a : α) :
    Simulates R (Pure.pure a : Fallible σ α) (Pure.pure a : Fallible τ α) :=
  fun _ _ h => ⟨rfl, h⟩

theorem Simulates.failure :
    Simulates R (Alternative.failure : Fallible σ α) (Alternative.failure : Fallible τ α) :=
  fun _ _ h => ⟨rfl, h⟩

theorem Simulates.after {m : Fallible σ α} {n : Fallible τ α} {k : α → Fallible σ β}
    {l : α → Fallible τ β} {s : σ} {t : τ}
    (hm : (exec m s).1 = (exec n t).1 ∧ R (exec m s).2 (exec n t).2)
    (hk : ∀ a, Simulates R (k a) (l a)) :
    (exec (m >>= k) s).1 = (exec (n >>= l) t).1 ∧
      R (exec (m >>= k) s).2 (exec (n >>= l) t).2 := by
  obtain ⟨hresult, hafter⟩ := hm
  rw [exec_bind, exec_bind]
  generalize exec m s = x, exec n t = y at *
  obtain ⟨o, s'⟩ := x
  obtain ⟨o', t'⟩ := y
  obtain rfl : o = o' := hresult
  cases o with
  | none => exact ⟨rfl, hafter⟩
  | some a => exact hk a s' t' hafter

theorem Simulates.bind {m : Fallible σ α} {n : Fallible τ α} {k : α → Fallible σ β}
    {l : α → Fallible τ β} (hm : Simulates R m n) (hk : ∀ a, Simulates R (k a) (l a)) :
    Simulates R (m >>= k) (n >>= l) :=
  fun s t hrel => Simulates.after (hm s t hrel) hk

theorem Simulates.ite {p : Prop} [Decidable p] {m m' : Fallible σ α} {n n' : Fallible τ α}
    (hm : Simulates R m n) (hm' : Simulates R m' n') :
    Simulates R (if p then m else m') (if p then n else n') := by
  split
  · exact hm
  · exact hm'

end

end Fallible

end RtosXrce.Library
