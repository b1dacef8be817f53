import Mathlib.Data.List.Basic
import Mathlib.Data.Nat.ModEq
import Mathlib.Logic.Function.Basic

/-!
# Ring buffers read as lists

The occupied slots of a ring, in order from its head, and what they become when a slot is filled
at the end or the head moves on.
-/

namespace RtosXrce.Library.Ring

variable {α : Type}

/-- The `n` slots from `head` on, in ring order. -/
def slots (buffer : Nat → α) (capacity head n : Nat) : List α :=
  (List.range n).map fun i => buffer ((head + i) % capacity)

variable {buffer : Nat → α} {capacity head n : Nat}

@[simp]
theorem length_slots : (slots buffer capacity head n).length = n := by
  simp [slots]

theorem slots_congr {buffer' : Nat → α}
    (h : ∀ i < n, buffer' ((head + i) % capacity) = buffer ((head + i) % capacity)) :
    slots buffer' capacity head n = slots buffer capacity head n :=
  List.map_congr_left fun i hi => h i (List.mem_range.mp hi)

/-- Two offsets below the capacity name two slots. -/
theorem index_ne {i j : Nat} (hij : i < j) (hj : j < capacity) :
    (head + i) % capacity ≠ (head + j) % capacity := by
  intro h
  have hmod : i % capacity = j % capacity := Nat.ModEq.add_left_cancel' head h
  rw [Nat.mod_eq_of_lt (Nat.lt_trans hij hj), Nat.mod_eq_of_lt hj] at hmod
  omega

/-- Filling the first free slot appends. -/
theorem slots_push (room : n < capacity) (x : α) :
    slots (Function.update buffer ((head + n) % capacity) x) capacity head (n + 1) =
      slots buffer capacity head n ++ [x] := by
  have hold : slots (Function.update buffer ((head + n) % capacity) x) capacity head n =
      slots buffer capacity head n :=
    slots_congr fun i hi => Function.update_of_ne (index_ne hi room) _ _
  rw [slots, List.range_succ, List.map_append]
  change slots _ capacity head n ++ _ = _
  simp [hold]

/-- Moving the head on drops the oldest item. -/
theorem slots_pop :
    slots buffer capacity head (n + 1) =
      buffer (head % capacity) :: slots buffer capacity ((head + 1) % capacity) n := by
  rw [slots, List.range_succ_eq_map, List.map_cons, List.map_map]
  refine congrArg₂ _ rfl (List.map_congr_left fun i _ => ?_)
  simp only [Function.comp, Nat.mod_add_mod]
  congr 2
  omega

/-- The same with a head that counts on instead of wrapping. -/
theorem slots_succ :
    slots buffer capacity head (n + 1) =
      buffer (head % capacity) :: slots buffer capacity (head + 1) n := by
  rw [slots_pop]
  simp only [slots, Nat.mod_add_mod]

end RtosXrce.Library.Ring
