import Mathlib.Data.List.Basic

/-!
# Flag-delimited framing with escapes

A frame on the wire is a flag followed by stuffed octets: an octet that equals the flag or the
escape is sent as the escape and a masked octet. A receiver hunts for a flag, collects octets,
and closes the frame as soon as its judge does not ask for more. An unescaped flag opens a new
frame in every state. The octet type, the mask and the judge are parameters.
-/

namespace RtosXrce.Library

structure Stuffing (α : Type) where
  flag : α
  esc : α
  mask : α → α
  mask_mask : ∀ x, mask (mask x) = x
  flag_ne_esc : flag ≠ esc
  mask_flag_ne : mask flag ≠ flag
  mask_esc_ne : mask esc ≠ flag

/-- What a receiver makes of the octets of a frame so far, and of a byte. -/
inductive Verdict (ρ : Type) where
  | more
  | accept (r : ρ)
  | reject
  deriving DecidableEq

/-- The octets since the last flag, and whether an escape is pending. -/
structure OpenFrame (α : Type) where
  octets : List α
  escaped : Bool
  deriving DecidableEq

namespace Stuffing

variable {α ρ : Type} [DecidableEq α] (S : Stuffing α)

def stuffOne (x : α) : List α := if x = S.flag ∨ x = S.esc then [S.esc, S.mask x] else [x]

def stuff (xs : List α) : List α := xs.flatMap S.stuffOne

@[simp] theorem stuff_nil : S.stuff [] = [] := rfl

@[simp] theorem stuff_cons (x : α) (xs : List α) :
    S.stuff (x :: xs) = S.stuffOne x ++ S.stuff xs := rfl

@[simp] theorem stuff_append (xs ys : List α) : S.stuff (xs ++ ys) = S.stuff xs ++ S.stuff ys := by
  simp [stuff]

theorem length_stuffOne_pos (x : α) : 0 < (S.stuffOne x).length := by
  unfold stuffOne
  split <;> simp

theorem length_stuff_le (xs : List α) : (S.stuff xs).length ≤ 2 * xs.length := by
  induction xs with
  | nil => exact Nat.le_refl 0
  | cons x xs ih =>
    have hone : (S.stuffOne x).length ≤ 2 := by
      rw [stuffOne]
      split <;> simp
    rw [stuff_cons, List.length_append, List.length_cons]
    omega

/-- No flag appears inside a stuffed frame. -/
theorem flag_not_mem_stuff (xs : List α) : S.flag ∉ S.stuff xs := by
  intro h
  obtain ⟨x, -, hx⟩ := List.mem_flatMap.mp h
  unfold stuffOne at hx
  split at hx
  · rename_i special
    have hm : S.flag = S.mask x := by simpa [S.flag_ne_esc] using hx
    rcases special with rfl | rfl
    · exact S.mask_flag_ne hm.symm
    · exact S.mask_esc_ne hm.symm
  · rename_i plain
    have : S.flag = x := by simpa using hx
    exact plain (Or.inl this.symm)

/-! ## The receiver -/

variable (judge : List α → Verdict ρ)

/-- An octet has been completed: keep collecting, or close the frame. -/
def conclude (octets : List α) : Option (OpenFrame α) × Verdict ρ :=
  match judge octets with
  | .more => (some ⟨octets, false⟩, .more)
  | v => (none, v)

/-- One byte off the wire; `none` is the hunting state. -/
def receive : Option (OpenFrame α) → α → Option (OpenFrame α) × Verdict ρ
  | none, b => if b = S.flag then (some ⟨[], false⟩, .more) else (none, .more)
  | some ⟨o, true⟩, b => conclude judge (o ++ [S.mask b])
  | some ⟨o, false⟩, b =>
    if b = S.flag then (some ⟨[], false⟩, .more)
    else if b = S.esc then (some ⟨o, true⟩, .more)
    else conclude judge (o ++ [b])

/-- The receiver's final state and its verdict on every byte. -/
def receiveAll (q : Option (OpenFrame α)) : List α → Option (OpenFrame α) × List (Verdict ρ)
  | [] => (q, [])
  | b :: bs =>
    let now := S.receive judge q b
    let rest := receiveAll now.1 bs
    (rest.1, now.2 :: rest.2)

@[simp] theorem receiveAll_nil (q : Option (OpenFrame α)) : S.receiveAll judge q [] = (q, []) := rfl

theorem receiveAll_cons (q : Option (OpenFrame α)) (b : α) (bs : List α) :
    S.receiveAll judge q (b :: bs) =
      ((S.receiveAll judge (S.receive judge q b).1 bs).1,
        (S.receive judge q b).2 :: (S.receiveAll judge (S.receive judge q b).1 bs).2) := rfl

theorem receiveAll_append (q : Option (OpenFrame α)) (xs ys : List α) :
    S.receiveAll judge q (xs ++ ys) =
      ((S.receiveAll judge (S.receiveAll judge q xs).1 ys).1,
        (S.receiveAll judge q xs).2 ++ (S.receiveAll judge (S.receiveAll judge q xs).1 ys).2) := by
  induction xs generalizing q with
  | nil => simp
  | cons x xs ih => simp [receiveAll_cons, ih]

theorem length_receiveAll (q : Option (OpenFrame α)) (xs : List α) :
    (S.receiveAll judge q xs).2.length = xs.length := by
  induction xs generalizing q with
  | nil => rfl
  | cons x xs ih => simp [receiveAll_cons, ih]

/-- A hunting receiver ignores everything but a flag, escapes included. -/
theorem receiveAll_hunting (xs : List α) (h : S.flag ∉ xs) :
    S.receiveAll judge none xs = (none, List.replicate xs.length .more) := by
  induction xs with
  | nil => rfl
  | cons x xs ih =>
    simp only [List.mem_cons, not_or] at h
    have hx : S.receive judge none x = (none, .more) := by simp [receive, Ne.symm h.1]
    rw [receiveAll_cons, hx, ih h.2]
    rfl

/-- A flag that is not taken for the second half of an escape pair opens a frame. -/
theorem receive_flag (q : Option (OpenFrame α)) (h : ∀ f, q = some f → f.escaped = false) :
    S.receive judge q S.flag = (some ⟨[], false⟩, .more) := by
  match q, h with
  | none, _ => simp [receive]
  | some ⟨o, false⟩, _ => simp [receive]
  | some ⟨o, true⟩, h => exact absurd (h _ rfl) (by simp)

/-- The bytes of one stuffed octet: in progress up to the last, which concludes the octet. -/
theorem receiveAll_stuffOne (o : List α) (x : α) :
    S.receiveAll judge (some ⟨o, false⟩) (S.stuffOne x) =
      ((conclude judge (o ++ [x])).1,
        List.replicate ((S.stuffOne x).length - 1) .more ++ [(conclude judge (o ++ [x])).2]) := by
  unfold stuffOne
  split
  · simp [receiveAll_cons, receive, S.flag_ne_esc.symm, S.mask_mask]
  · rename_i plain
    simp only [not_or] at plain
    simp [receiveAll_cons, receive, plain]

/-- While the judge asks for more, stuffed octets are collected silently. -/
theorem receiveAll_more (o xs : List α)
    (h : ∀ ys, ys <+: xs → ys ≠ [] → judge (o ++ ys) = .more) :
    S.receiveAll judge (some ⟨o, false⟩) (S.stuff xs) =
      (some ⟨o ++ xs, false⟩, List.replicate (S.stuff xs).length .more) := by
  induction xs generalizing o with
  | nil => simp
  | cons x xs ih =>
    have hx : judge (o ++ [x]) = .more := h [x] ⟨xs, rfl⟩ (by simp)
    have hc : conclude judge (o ++ [x]) = (some ⟨o ++ [x], false⟩, .more) := by simp [conclude, hx]
    have step := ih (o ++ [x]) (by
      intro ys hys hne
      have := h (x :: ys) (List.cons_prefix_cons.mpr ⟨rfl, hys⟩) (by simp)
      simpa using this)
    have one : (S.stuffOne x).length - 1 + 1 = (S.stuffOne x).length := by
      have := S.length_stuffOne_pos x
      omega
    rw [stuff_cons, receiveAll_append, receiveAll_stuffOne, hc]
    simp only [step, List.append_assoc, List.cons_append, List.nil_append, List.length_append]
    rw [← List.replicate_append_replicate, ← one, List.replicate_add]
    simp

/-- The octet on which the judge decides closes the frame; what follows is ignored. -/
theorem receiveAll_decided (o xs : List α) (x : α) (zs : List α) {v : Verdict ρ}
    (more : ∀ ys, ys <+: xs → ys ≠ [] → judge (o ++ ys) = .more)
    (decided : judge (o ++ xs ++ [x]) = v) (hv : v ≠ .more) :
    S.receiveAll judge (some ⟨o, false⟩) (S.stuff (xs ++ x :: zs)) =
      (none, List.replicate ((S.stuff (xs ++ [x])).length - 1) .more ++ v ::
        List.replicate (S.stuff zs).length .more) := by
  have hc : conclude judge (o ++ xs ++ [x]) = (none, v) := by
    unfold conclude
    rw [decided]
    cases v <;> simp_all
  have quiet := S.receiveAll_hunting judge (S.stuff zs) (S.flag_not_mem_stuff zs)
  have len : (S.stuff (xs ++ [x])).length - 1 =
      (S.stuff xs).length + ((S.stuffOne x).length - 1) := by
    have := S.length_stuffOne_pos x
    simp
    omega
  rw [stuff_append, stuff_cons, receiveAll_append, S.receiveAll_more judge o xs more,
    receiveAll_append, receiveAll_stuffOne, hc, quiet, len]
  simp only [List.append_assoc, List.cons_append, List.nil_append,
    ← List.replicate_append_replicate]

/-- A verdict on the last byte of stuffed octets is the judge's verdict on all octets since the
frame was opened. -/
theorem judge_of_last (o xs : List α) {v : Verdict ρ} (hv : v ≠ .more)
    (last : (S.receiveAll judge (some ⟨o, false⟩) (S.stuff xs)).2.getLast? = some v) :
    judge (o ++ xs) = v := by
  induction xs generalizing o with
  | nil => simp at last
  | cons x xs ih =>
    rw [stuff_cons, receiveAll_append, receiveAll_stuffOne] at last
    by_cases hj : judge (o ++ [x]) = .more
    · have hc : conclude judge (o ++ [x]) = (some ⟨o ++ [x], false⟩, .more) := by
        simp [conclude, hj]
      rw [hc] at last
      simp only [List.getLast?_append, List.getLast?_singleton] at last
      cases hl : (S.receiveAll judge (some ⟨o ++ [x], false⟩) (S.stuff xs)).2.getLast? with
      | none => simp [hl] at last; exact absurd last.symm hv
      | some w =>
        have : w = v := by simpa [hl] using last
        simpa using ih (o ++ [x]) (by rw [hl, this])
    · have hc : conclude judge (o ++ [x]) = (none, judge (o ++ [x])) := by
        unfold conclude
        cases h : judge (o ++ [x]) <;> simp_all
      rw [hc] at last
      simp only [S.receiveAll_hunting judge _ (S.flag_not_mem_stuff xs)] at last
      cases xs with
      | nil => simpa using last
      | cons y ys =>
        have pos : (S.stuff (y :: ys)).length ≠ 0 := by
          have := S.length_stuffOne_pos y
          rw [stuff_cons, List.length_append]
          omega
        have quiet : (List.replicate (S.stuff (y :: ys)).length (Verdict.more (ρ := ρ))).getLast? =
            some .more := by
          rw [List.getLast?_replicate, if_neg pos]
        rw [List.getLast?_append, quiet, Option.some_or] at last
        exact absurd (Option.some.inj last).symm hv

/-! ## The bytes a verdict rests on -/

/-- The octets that bytes stand for; the flag in front says whether an escape is pending. There are
none when a flag stands outside an escape pair or the last escape pair is cut off. -/
def unstuff : Bool → List α → Option (List α)
  | false, [] => some []
  | true, [] => none
  | true, b :: bs => (unstuff false bs).map (S.mask b :: ·)
  | false, b :: bs =>
    if b = S.flag then none
    else if b = S.esc then unstuff true bs
    else (unstuff false bs).map (b :: ·)

theorem unstuff_stuffOne (x : α) (bs : List α) :
    S.unstuff false (S.stuffOne x ++ bs) = (S.unstuff false bs).map (x :: ·) := by
  unfold stuffOne
  split
  next => simp [unstuff, S.flag_ne_esc.symm, S.mask_mask]
  next plain =>
    simp only [not_or] at plain
    simp [unstuff, plain]

/-- Stuffing is undone. -/
theorem unstuff_stuff (xs : List α) : S.unstuff false (S.stuff xs) = some xs := by
  induction xs with
  | nil => rfl
  | cons x xs ih => rw [stuff_cons, unstuff_stuffOne, ih, Option.map_some]

theorem eq_nil_of_unstuff {bs : List α} (h : S.unstuff false bs = some []) : bs = [] := by
  cases bs with
  | nil => rfl
  | cons b bs =>
    unfold unstuff at h
    split_ifs at h with _ hesc
    · cases bs <;> simp [unstuff] at h
    · simp at h

/-- What one byte can do to a receiver: open a frame, go unnoticed, begin an escape pair, or
complete an octet. -/
theorem receive_cases (q : Option (OpenFrame α)) (b : α) :
    (b = S.flag ∧ (∀ f, q = some f → f.escaped = false) ∧
      S.receive judge q b = (some ⟨[], false⟩, .more)) ∨
    (q = none ∧ S.receive judge q b = (none, .more)) ∨
    (∃ o, q = some ⟨o, false⟩ ∧ (∀ bs, S.unstuff false (b :: bs) = S.unstuff true bs) ∧
      S.receive judge q b = (some ⟨o, true⟩, .more)) ∨
    (∃ o e x, q = some ⟨o, e⟩ ∧
      (∀ bs, S.unstuff e (b :: bs) = (S.unstuff false bs).map (x :: ·)) ∧
      S.receive judge q b = conclude judge (o ++ [x])) := by
  match q with
  | none =>
    by_cases hflag : b = S.flag
    · exact .inl ⟨hflag, nofun, by simp [receive, hflag]⟩
    · exact .inr <| .inl ⟨rfl, by simp [receive, hflag]⟩
  | some ⟨o, true⟩ => exact .inr <| .inr <| .inr ⟨o, true, S.mask b, rfl, fun _ => rfl, rfl⟩
  | some ⟨o, false⟩ =>
    by_cases hflag : b = S.flag
    · exact .inl ⟨hflag, by rintro f ⟨⟩; rfl, by simp [receive, hflag]⟩
    · by_cases hesc : b = S.esc
      · exact .inr <| .inr <| .inl
          ⟨o, rfl, fun _ => by simp [unstuff, hesc, S.flag_ne_esc.symm],
            by simp [receive, hesc, S.flag_ne_esc.symm]⟩
      · exact .inr <| .inr <| .inr
          ⟨o, false, b, rfl, fun _ => by simp [unstuff, hflag, hesc],
            by simp [receive, hflag, hesc]⟩

omit [DecidableEq α] in
theorem conclude_snd (o : List α) : (conclude judge o).2 = judge o := by
  unfold conclude
  split <;> simp_all

omit [DecidableEq α] in
theorem conclude_fst_eq_some {o : List α} {f : OpenFrame α}
    (h : (conclude judge o).1 = some f) : f = ⟨o, false⟩ := by
  unfold conclude at h
  split at h <;> simp_all

/-- A verdict on the last byte is the judge's on the octets of the frame still open, or on those
behind a flag that opened one. -/
theorem unstuff_of_last (q : Option (OpenFrame α)) (bs : List α) {v : Verdict ρ} (hv : v ≠ .more)
    (last : (S.receiveAll judge q bs).2.getLast? = some v) :
    (∃ o e xs, q = some ⟨o, e⟩ ∧ S.unstuff e bs = some xs ∧ judge (o ++ xs) = v) ∨
    ∃ p body xs, bs = p ++ S.flag :: body ∧
      (∀ f, (S.receiveAll judge q p).1 = some f → f.escaped = false) ∧
      S.unstuff false body = some xs ∧ judge xs = v := by
  induction bs generalizing q with
  | nil => cases last
  | cons b bs ih =>
    rw [receiveAll_cons] at last
    cases bs with
    | nil =>
      -- the verdict is on this byte, so it completed an octet
      have hnow : (S.receive judge q b).2 = v := by simpa using last
      rcases S.receive_cases judge q b with ⟨_, _, hr⟩ | ⟨_, hr⟩ | ⟨_, _, _, hr⟩ |
        ⟨o, e, x, rfl, hun, hr⟩
      · exact absurd (hnow.symm.trans (by rw [hr])) hv
      · exact absurd (hnow.symm.trans (by rw [hr])) hv
      · exact absurd (hnow.symm.trans (by rw [hr])) hv
      · refine .inl ⟨o, e, [x], rfl, hun [], ?_⟩
        rw [← hnow, hr, conclude_snd]
    | cons c bs =>
      have hlater : (S.receiveAll judge (S.receive judge q b).1 (c :: bs)).2.getLast? = some v := by
        rw [receiveAll_cons] at last ⊢
        simpa using last
      rcases ih _ hlater with ⟨o, e, xs, hq, hxs, hj⟩ | ⟨p, body, xs, hbs, settled, hxs, hj⟩
      · -- the frame is open behind `b`; where it was opened depends on what `b` did
        rcases S.receive_cases judge q b with ⟨hflag, settled, hr⟩ | ⟨_, hr⟩ | ⟨o', hq', hun, hr⟩ |
          ⟨o', e', x, hq', hun, hr⟩
        · rw [hr] at hq
          cases hq
          exact .inr ⟨[], c :: bs, xs, by rw [hflag]; rfl, settled, hxs, hj⟩
        · rw [hr] at hq
          cases hq
        · rw [hr] at hq
          cases hq
          exact .inl ⟨o, false, xs, hq', (hun _).trans hxs, hj⟩
        · rw [hr] at hq
          cases conclude_fst_eq_some judge hq
          refine .inl ⟨o', e', x :: xs, hq', by rw [hun, hxs]; rfl, ?_⟩
          rwa [List.append_assoc] at hj
      · exact .inr ⟨b :: p, body, xs, by rw [hbs]; rfl, settled, hxs, hj⟩

/-- Octets on whose proper beginnings the judge asks for more are judged on their last byte, in
whichever way they were stuffed. -/
theorem last_of_unstuff (o : List α) (e : Bool) (bs : List α) {xs : List α}
    (hxs : S.unstuff e bs = some xs) (hne : xs ≠ [])
    (more : ∀ ys, ys <+: xs → ys ≠ [] → ys ≠ xs → judge (o ++ ys) = .more) :
    (S.receiveAll judge (some ⟨o, e⟩) bs).2.getLast? = some (judge (o ++ xs)) := by
  induction bs generalizing o e xs with
  | nil => cases e <;> simp_all [unstuff]
  | cons b bs ih =>
    rw [receiveAll_cons, List.getLast?_cons]
    rcases S.receive_cases judge (some ⟨o, e⟩) b with ⟨hflag, settled, -⟩ | ⟨hq, -⟩ |
      ⟨o', hq, hun, hr⟩ | ⟨o', e', x, hq, hun, hr⟩
    · obtain rfl : e = false := settled _ rfl
      simp [unstuff, hflag] at hxs
    · cases hq
    · cases hq
      rw [hr, ih o true ((hun bs).symm.trans hxs) hne more]
      rfl
    · cases hq
      obtain ⟨xs, hrest, rfl⟩ := Option.map_eq_some_iff.mp ((hun bs).symm.trans hxs)
      by_cases hlast : xs = []
      · subst hlast
        rw [S.eq_nil_of_unstuff hrest, hr, conclude_snd]
        rfl
      · have hmore : judge (o ++ [x]) = .more :=
          more [x] ⟨xs, rfl⟩ (by simp) (by simpa using Ne.symm hlast)
        have hc : conclude judge (o ++ [x]) = (some ⟨o ++ [x], false⟩, .more) := by
          simp [conclude, hmore]
        have hlater := ih (o ++ [x]) false hrest hlast fun ys hys hne hne' => by
          rw [List.append_assoc]
          exact more (x :: ys) (List.cons_prefix_cons.mpr ⟨rfl, hys⟩) (by simp)
            (by simpa using hne')
        rw [hr, hc, hlater, List.append_assoc]
        rfl

end Stuffing

end RtosXrce.Library
