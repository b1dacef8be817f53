import Mathlib.Data.List.Range
import Mathlib.Data.List.Induction
import Mathlib.Order.Lattice

/-!
# Scanning a table from a position onwards

A scan visits the positions `0 … n - 1` once each, from `start` on and around the end. Its first
hit comes before every other hit in cyclic order. A walk that keeps the best entry so far ends with
the best of all.
-/

namespace RtosXrce.Library

/-- Going upwards from `b` and around, `h` comes strictly before `a`. -/
def Between (b h a : Nat) : Prop := b < h ∧ h < a ∨ a < b ∧ (b < h ∨ h < a)

instance (b h a : Nat) : Decidable (Between b h a) := inferInstanceAs (Decidable (_ ∨ _))

theorem mod_of_lt_double {x n : Nat} (h : x < n + n) : x % n = if x < n then x else x - n := by
  split
  case isTrue hlt => exact Nat.mod_eq_of_lt hlt
  case isFalse hge =>
    rw [Nat.mod_eq_sub_mod (Nat.not_lt.mp hge)]
    exact Nat.mod_eq_of_lt (by omega)

/-- The positions in the order of a scan from `start`. -/
def scan (n start : Nat) : List Nat := (List.range n).map fun i => (start + i) % n

/-- What a scan visits before its first hit is not a hit. -/
theorem find?_scan {n start a : Nat} {p : Nat → Bool} (h : (scan n start).find? p = some a) :
    p a = true ∧ ∃ i < n, a = (start + i) % n ∧ ∀ j < i, p ((start + j) % n) = false := by
  rw [scan, List.find?_map, Option.map_eq_some_iff] at h
  obtain ⟨i, hi, rfl⟩ := h
  obtain ⟨hp, hlt, hfirst⟩ := List.find?_range_eq_some.mp hi
  exact ⟨hp, i, List.mem_range.mp hlt, rfl, fun j hj => by simpa using hfirst j hj⟩

/-- How many positions a scan from `start` visits before `i`. -/
def turn (n start i : Nat) : Nat := (i + n - start) % n

theorem turn_eq {n start i : Nat} (hs : start < n) (hi : i < n) :
    turn n start i = if start ≤ i then i - start else i + n - start := by
  rw [turn, mod_of_lt_double (by omega)]
  split_ifs <;> omega

theorem add_turn {n start i : Nat} (hs : start < n) (hi : i < n) :
    (start + turn n start i) % n = i := by
  rw [turn_eq hs hi, mod_of_lt_double (by split <;> omega)]
  split_ifs <;> omega

theorem turn_add {n start j : Nat} (hs : start < n) (hj : j < n) :
    turn n start ((start + j) % n) = j := by
  rw [turn_eq hs (Nat.mod_lt _ (by omega)), mod_of_lt_double (by omega)]
  split_ifs <;> omega

/-- The first hit of a scan has the earliest turn of all hits. -/
theorem turn_le_of_find?_scan {n start a b : Nat} {p : Nat → Bool} (hs : start < n) (hb : b < n)
    (h : (scan n start).find? p = some a) (pb : p b = true) : turn n start a ≤ turn n start b := by
  obtain ⟨-, i, hi, rfl, hfirst⟩ := find?_scan h
  rw [turn_add hs hi]
  by_contra hlt
  have hmiss := hfirst (turn n start b) (by omega)
  rw [add_turn hs hb, pb] at hmiss
  cases hmiss

/-- A scan without a hit has seen every position. -/
theorem find?_scan_eq_none {n start : Nat} {p : Nat → Bool} (hs : start < n)
    (h : (scan n start).find? p = none) {b : Nat} (hb : b < n) : p b = false := by
  have hmem : b ∈ scan n start :=
    List.mem_map.mpr ⟨turn n start b, List.mem_range.mpr (Nat.mod_lt _ (by omega)), add_turn hs hb⟩
  simpa using List.find?_eq_none.mp h b hmem

/-- A scan that starts right after `cur` passes over a hit at `b` only if `cur` stands there, or
after `b` and before the position it finds. -/
theorem between_of_find?_scan {n cur a b : Nat} {p : Nat → Bool} (hcur : cur < n) (hb : b < n)
    (hab : a ≠ b) (h : (scan n ((cur + 1) % n)).find? p = some a) (pb : p b = true) :
    cur = b ∨ Between b cur a := by
  have hs : (cur + 1) % n < n := Nat.mod_lt _ (by omega)
  have hle := turn_le_of_find?_scan hs hb h pb
  obtain ⟨-, i, -, ha, -⟩ := find?_scan h
  have hlt : a < n := ha ▸ Nat.mod_lt _ (by omega)
  have hstart : (cur + 1) % n = if cur + 1 < n then cur + 1 else cur + 1 - n :=
    mod_of_lt_double (by omega)
  rw [turn_eq hs hlt, turn_eq hs hb, hstart] at hle
  unfold Between
  split_ifs at hle <;> omega

/-! ## The best entry -/

/-- The greatest value among the entries that `p` holds of, kept while walking a list. -/
def best {ι β : Type} [LinearOrder β] (p : ι → Prop) [DecidablePred p] (f : ι → β) (l : List ι) :
    Option β :=
  l.foldl (fun best i => if p i ∧ ∀ b ∈ best, b < f i then some (f i) else best) none

section Best

variable {ι β : Type} [LinearOrder β] {p : ι → Prop} [DecidablePred p] {f : ι → β}

theorem best_append (l : List ι) (i : ι) :
    best p f (l ++ [i]) =
      if p i ∧ ∀ b ∈ best p f l, b < f i then some (f i) else best p f l := by
  simp [best]

theorem best_spec (l : List ι) :
    (best p f l = none → ∀ i ∈ l, ¬ p i) ∧
      ∀ b, best p f l = some b → (∃ i ∈ l, p i ∧ f i = b) ∧ ∀ i ∈ l, p i → f i ≤ b := by
  induction l using List.reverseRecOn with
  | nil => simp [best]
  | append_singleton l x ih =>
    obtain ⟨hnone, hsome⟩ := ih
    rw [best_append]
    split
    case isTrue hx =>
      refine ⟨nofun, ?_⟩
      rintro b ⟨⟩
      refine ⟨⟨x, by simp, hx.1, rfl⟩, fun i hi hp => ?_⟩
      rcases List.mem_append.mp hi with hi | hi
      · cases hb : best p f l with
        | none => exact absurd hp (hnone hb i hi)
        | some b => exact ((hsome b hb).2 i hi hp).trans (hx.2 b (by simp [hb])).le
      · rw [List.mem_singleton.mp hi]
    case isFalse hx =>
      have hlast (hp : p x) : ∃ b, best p f l = some b ∧ f x ≤ b := by
        by_contra! habove
        exact hx ⟨hp, fun b hb => habove b (by simpa using hb)⟩
      constructor
      · intro hb i hi hp
        rcases List.mem_append.mp hi with hi | hi
        · exact hnone hb i hi hp
        · obtain ⟨b, hb', -⟩ := hlast (List.mem_singleton.mp hi ▸ hp)
          rw [hb] at hb'
          cases hb'
      · intro b hb
        obtain ⟨⟨i, hi, hp⟩, hmax⟩ := hsome b hb
        refine ⟨⟨i, List.mem_append_left _ hi, hp⟩, fun j hj hpj => ?_⟩
        rcases List.mem_append.mp hj with hj | hj
        · exact hmax j hj hpj
        · obtain rfl := List.mem_singleton.mp hj
          obtain ⟨b', hb', hle⟩ := hlast hpj
          rw [hb] at hb'
          cases hb'
          exact hle

end Best

end RtosXrce.Library
