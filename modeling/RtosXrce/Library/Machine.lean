import Mathlib.Data.List.Basic
import Mathlib.Logic.Function.Iterate

/-!
# Input-output machines

A machine reads one input at a time and answers each. `outputs_select` lets inputs be deleted
whose answer left the state alone, `outputs_simulation` carries the answers of one machine over
to another, `outputs_counted` numbers the answers of a run that count. The record filter at the
end lets a number pass when it is above every number that passed before.
-/

namespace RtosXrce.Library

section Machine

variable {σ τ α β γ δ : Type}

/-- The answers to a list of inputs. -/
def outputs (step : σ → α → σ × β) : σ → List α → List β
  | _, [] => []
  | s, a :: as => (step s a).2 :: outputs step (step s a).1 as

theorem exists_of_mem_outputs {step : σ → α → σ × β} {as : List α} {s : σ} {b : β}
    (hb : b ∈ outputs step s as) : ∃ s', ∃ a ∈ as, b = (step s' a).2 := by
  induction as generalizing s with
  | nil => cases hb
  | cons a as ih =>
    obtain rfl | hb := List.mem_cons.mp hb
    · exact ⟨s, a, List.mem_cons_self, rfl⟩
    · obtain ⟨s', a', ha', heq⟩ := ih hb
      exact ⟨s', a', List.mem_cons_of_mem a ha', heq⟩

/-- The elements at the positions that `keep` holds of. -/
def select (keep : Nat → Bool) : List α → List α
  | [] => []
  | a :: as => if keep 0 then a :: select (fun k => keep (k + 1)) as
    else select (fun k => keep (k + 1)) as

theorem outputs_select {step : σ → α → σ × β} {I : β → Prop}
    (same : ∀ s a, I (step s a).2 → (step s a).1 = s) (as : List α) (s : σ)
    (keep : Nat → Bool)
    (dropped : ∀ k b, keep k = false → (outputs step s as)[k]? = some b → I b) :
    outputs step s (select keep as) = select keep (outputs step s as) := by
  induction as generalizing s keep with
  | nil => rfl
  | cons a as ih =>
    have rest : outputs step (step s a).1 (select (fun k => keep (k + 1)) as) =
        select (fun k => keep (k + 1)) (outputs step (step s a).1 as) :=
      ih (step s a).1 _ fun k b hk hb => dropped (k + 1) b hk hb
    by_cases hkeep : keep 0 = true
    · simp only [select, outputs, if_pos hkeep, rest]
    · have hsame : (step s a).1 = s :=
        same s a (dropped 0 _ (by simpa using hkeep) rfl)
      rw [hsame] at rest
      simp only [select, outputs, if_neg hkeep, hsame, rest]

theorem outputs_simulation {step : σ → α → σ × β} {step' : τ → γ → τ × δ} {R : σ → τ → Prop}
    {f : α → γ} {g : β → δ} {as : List α}
    (sim : ∀ s t, ∀ a ∈ as, R s t → R (step s a).1 (step' t (f a)).1 ∧
      g (step s a).2 = (step' t (f a)).2)
    {s : σ} {t : τ} (h : R s t) :
    (outputs step s as).map g = outputs step' t (as.map f) := by
  induction as generalizing s t with
  | nil => rfl
  | cons a as ih =>
    obtain ⟨hnext, hout⟩ := sim s t a List.mem_cons_self h
    simp only [outputs, List.map_cons, hout]
    rw [ih (fun s t b hb => sim s t b (List.mem_cons_of_mem a hb)) hnext]

/-- When the counted answers carry the label of the state and move it on, and no other answer
touches it, the `k`-th counted answer carries the label of the start moved on `k` times. -/
theorem outputs_counted {step : σ → α → σ × β} {ok : β → Prop} {counted : β → Bool}
    (label : σ → γ) (stamp : β → γ) {next : γ → γ}
    (count : ∀ s a, ok (step s a).2 → counted (step s a).2 = true →
      stamp (step s a).2 = label s ∧ label (step s a).1 = next (label s))
    (other : ∀ s a, counted (step s a).2 = false → label (step s a).1 = label s)
    {as : List α} {s : σ} (hok : ∀ b ∈ outputs step s as, ok b) {k : Nat} {b : β}
    (hb : ((outputs step s as).filter counted)[k]? = some b) : stamp b = next^[k] (label s) := by
  induction as generalizing s k with
  | nil => cases hb
  | cons a as ih =>
    have hrest : ∀ b ∈ outputs step (step s a).1 as, ok b := fun b hmem =>
      hok b (List.mem_cons_of_mem _ hmem)
    rw [outputs] at hb
    cases hcounted : counted (step s a).2 with
    | false =>
      rw [List.filter_cons_of_neg (by simp [hcounted])] at hb
      rw [ih hrest hb, other s a hcounted]
    | true =>
      obtain ⟨hstamp, hlabel⟩ := count s a (hok _ List.mem_cons_self) hcounted
      rw [List.filter_cons_of_pos hcounted] at hb
      cases k with
      | zero =>
        obtain rfl := Option.some.inj hb
        exact hstamp
      | succ k =>
        rw [ih hrest hb, hlabel, Function.iterate_succ_apply]

end Machine

namespace Record

/-- Let `some i` pass when `i` is at least `floor`, and raise the floor above it; `none` never
passes. -/
def offer (floor : Nat) : Option Nat → Nat × Bool
  | some i => if floor ≤ i then (i + 1, true) else (floor, false)
  | none => (floor, false)

theorem offer_bound {floor i : Nat} {x : Option Nat} :
    (offer floor x).1 ≤ i ↔ floor ≤ i ∧ ∀ j, x = some j → (offer floor x).2 = true → j < i := by
  cases x with
  | none => simp [offer]
  | some j =>
    by_cases h : floor ≤ j
    · simp [offer, h]
      omega
    · simp [offer, h]

/-- A number passes exactly when no number at least as large passed before. -/
theorem passes_iff (floor : Nat) (xs : List (Option Nat)) (k : Nat) :
    (outputs offer floor xs)[k]? = some true ↔
      ∃ i, xs[k]? = some (some i) ∧ floor ≤ i ∧ ∀ k' < k, ∀ j, xs[k']? = some (some j) →
        (outputs offer floor xs)[k']? = some true → j < i := by
  induction xs generalizing floor k with
  | nil => simp [outputs]
  | cons x xs ih =>
    cases k with
    | zero =>
      cases x with
      | none => simp [outputs, offer]
      | some i =>
        by_cases h : floor ≤ i <;> simp [outputs, offer, h]
    | succ k =>
      simp only [outputs, List.getElem?_cons_succ]
      rw [ih]
      refine exists_congr fun i => and_congr_right fun _ => ?_
      rw [offer_bound]
      constructor
      · rintro ⟨⟨hfloor, hx⟩, hrest⟩
        refine ⟨hfloor, fun k' hk' j hj hpass => ?_⟩
        cases k' with
        | zero => exact hx j (by simpa using hj) (by simpa using hpass)
        | succ k' => exact hrest k' (by omega) j (by simpa using hj) (by simpa using hpass)
      · rintro ⟨hfloor, hall⟩
        refine ⟨⟨hfloor, fun j hj hpass => hall 0 (by omega) j (by simp [hj]) (by simp [hpass])⟩,
          fun k' hk' j hj hpass => hall (k' + 1) (by omega) j hj hpass⟩

end Record

end RtosXrce.Library
