import RtosXrce.Xrce.SecureFrames

/-!
# The counters of a sender

A run of `xrce_secure_wrap` calls on one context numbers the payloads that fit, one after the other,
with a 32-bit counter that has no limit check. A receiver that sees all of them in order accepts
them as long as the counter has not come around.
-/

namespace RtosXrce.Xrce.Secure

open Library

/-- The secure payloads of `payloads`, numbered from `c` on. -/
def frames (key : Bytes) (c : Nat) (payloads : List Bytes) : List Bytes :=
  (payloads.zipIdx c).map fun p => frame key (UInt32.ofNat p.2) p.1

@[simp] theorem frames_nil (key : Bytes) (c : Nat) : frames key c [] = [] := rfl

@[simp] theorem frames_cons (key : Bytes) (c : Nat) (p : Bytes) (payloads : List Bytes) :
    frames key c (p :: payloads) = frame key (UInt32.ofNat c) p :: frames key (c + 1) payloads := by
  simp [frames, List.zipIdx_cons]

@[simp] theorem length_frames (key : Bytes) (c : Nat) (payloads : List Bytes) :
    (frames key c payloads).length = payloads.length := by
  simp [frames]

theorem getElem?_frames (key : Bytes) (c : Nat) (payloads : List Bytes) (k : Nat) :
    (frames key c payloads)[k]? = payloads[k]?.map (frame key (UInt32.ofNat (c + k))) := by
  induction payloads generalizing c k with
  | nil => simp
  | cons p payloads ih =>
    cases k with
    | zero => simp
    | succ k =>
      have hshift : c + 1 + k = c + (k + 1) := by omega
      rw [frames_cons, List.getElem?_cons_succ, ih, hshift, List.getElem?_cons_succ]

namespace Ctx

/-- The payloads of the calls that do not return 0. -/
def fitting (calls : List (Bytes × Nat)) : List Bytes :=
  (calls.filter fun call => Fits call.1 call.2).map Prod.fst

/-- The context after a list of `xrce_secure_wrap` calls. -/
def afterWraps (ctx : Ctx) (calls : List (Bytes × Nat)) : Ctx :=
  calls.foldl (fun ctx call => (ctx.wrap call.1 call.2).1) ctx

/-- The secure payloads of the calls that did not return 0. -/
def sent (ctx : Ctx) (calls : List (Bytes × Nat)) : List Bytes :=
  (ctx.wrapAll calls).filter (· ≠ [])

theorem fitting_cons_of_fits {call : Bytes × Nat} (h : Fits call.1 call.2)
    (calls : List (Bytes × Nat)) : fitting (call :: calls) = call.1 :: fitting calls := by
  simp [fitting, h]

theorem fitting_cons_of_not_fits {call : Bytes × Nat} (h : ¬ Fits call.1 call.2)
    (calls : List (Bytes × Nat)) : fitting (call :: calls) = fitting calls := by
  simp [fitting, h]

theorem length_of_mem_fitting {calls : List (Bytes × Nat)} {p : Bytes} (h : p ∈ fitting calls) :
    p.length ≤ macInputScratchLen - counterLen := by
  obtain ⟨call, hcall, rfl⟩ := List.mem_map.mp h
  have hfits : Fits call.1 call.2 := by simpa using (List.mem_filter.mp hcall).2
  exact hfits.1

/-- The payloads that fit go out under consecutive counters. -/
theorem sent_eq {ctx : Ctx} {c : Nat} (hc : ctx.sendCounter = UInt32.ofNat c)
    (calls : List (Bytes × Nat)) : ctx.sent calls = frames ctx.key c (fitting calls) := by
  induction calls generalizing ctx c with
  | nil => rfl
  | cons call calls ih =>
    by_cases hfits : Fits call.1 call.2
    · have hwrap : ctx.wrap call.1 call.2 = _ := wrap_of_fits hfits
      have hnext : ({ ctx with sendCounter := ctx.sendCounter + 1 } : Ctx).sent calls = _ :=
        ih (c := c + 1) (by rw [hc, UInt32.ofNat_add]; rfl)
      have hout := frame_ne_nil ctx.key ctx.sendCounter call.1
      rw [fitting_cons_of_fits hfits, frames_cons, ← hc, ← hnext]
      simp only [sent, wrapAll, outputs, hwrap]
      rw [List.filter_cons_of_pos (by simpa using hout)]
    · have hwrap : ctx.wrap call.1 call.2 = _ := wrap_of_not_fits hfits
      rw [fitting_cons_of_not_fits hfits, ← ih hc]
      simp only [sent, wrapAll, outputs, hwrap]
      rw [List.filter_cons_of_neg (by simp)]

/-- A receiver whose floor is not above the first counter accepts them all. -/
theorem unwrapAll_frames {r : Ctx} {key : Bytes} (hkey : r.key = key) {c : Nat}
    {payloads : List Bytes} (hlen : ∀ p ∈ payloads, p.length ≤ macInputScratchLen - counterLen)
    (hfloor : r.floor ≤ c) (hfew : c + payloads.length ≤ 2 ^ 32) :
    r.unwrapAll (frames key c payloads) = payloads.map .ok := by
  induction payloads generalizing r c with
  | nil => rfl
  | cons p payloads ih =>
    simp only [List.length_cons] at hfew
    have hc : (UInt32.ofNat c).toNat = c := UInt32.toNat_ofNat_of_lt' (by
      change c < 2 ^ 32
      omega)
    have hp := hlen p List.mem_cons_self
    have hnumber : number r.key (frame key (UInt32.ofNat c) p) = some c := by
      rw [hkey, number_frame key _ hp, hc]
    have hok : (r.unwrap (frame key (UInt32.ofNat c) p)).2 = .ok p := by
      rw [unwrap_ok_iff, getCounterBe_frame, plain_frame, hc, hkey]
      exact ⟨verifies_frame key _ hp, hfloor, rfl⟩
    have hnext : (r.unwrap (frame key (UInt32.ofNat c) p)).1.floor = c + 1 := by
      rw [unwrap_offer.1, hnumber, Record.offer, if_pos hfloor]
    have hrest := ih (unwrap_key.trans hkey) (fun q hq => hlen q (List.mem_cons_of_mem p hq))
      (Nat.le_of_eq hnext) (by omega)
    rw [frames_cons, List.map_cons, ← hrest, ← hok]
    rfl

/-- What the counter is for: every payload that goes out has a counter above all earlier ones, a
call that returns 0 leaves the context alone, no counter is used twice, and a receiver that is not
ahead accepts the payloads in order. -/
structure StrictlyCounted (ctx : Ctx) (calls : List (Bytes × Nat)) : Prop where
  increasing : (ctx.sent calls).Pairwise fun f f' => getCounterBe f < getCounterBe f'
  unchanged : ∀ k call, calls[k]? = some call →
    ((ctx.afterWraps (calls.take k)).wrap call.1 call.2).2 = [] →
    ctx.afterWraps (calls.take (k + 1)) = ctx.afterWraps (calls.take k)
  distinct : ((ctx.sent calls).map getCounterBe).Nodup
  accepted : ∀ r : Ctx, r.key = ctx.key → r.floor ≤ ctx.sendCounter.toNat →
    r.unwrapAll (ctx.sent calls) = (fitting calls).map .ok

/-- A call that returns 0 leaves the context alone, in every run. -/
theorem afterWraps_take_succ (ctx : Ctx) {calls : List (Bytes × Nat)} {k : Nat}
    {call : Bytes × Nat} (hcall : calls[k]? = some call)
    (hzero : ((ctx.afterWraps (calls.take k)).wrap call.1 call.2).2 = []) :
    ctx.afterWraps (calls.take (k + 1)) = ctx.afterWraps (calls.take k) := by
  have hfails : ¬ Fits call.1 call.2 := fun hfits => by
    rw [wrap_of_fits hfits] at hzero
    exact frame_ne_nil _ _ _ hzero
  have hstep : ctx.afterWraps (calls.take (k + 1)) =
      ((ctx.afterWraps (calls.take k)).wrap call.1 call.2).1 := by
    simp only [afterWraps, List.take_add_one, hcall, Option.toList_some, List.foldl_append,
      List.foldl_cons, List.foldl_nil]
  rw [hstep, wrap_of_not_fits hfails]

theorem getElem?_sent (ctx : Ctx) (calls : List (Bytes × Nat)) (k : Nat) :
    (ctx.sent calls)[k]? = (fitting calls)[k]?.map
      (frame ctx.key (UInt32.ofNat (ctx.sendCounter.toNat + k))) := by
  rw [sent_eq (UInt32.ofNat_toNat ..).symm calls, getElem?_frames]

/-- Below the wrap the counters grow with the position. -/
theorem pairwise_sent {ctx : Ctx} {calls : List (Bytes × Nat)}
    (hfew : ctx.sendCounter.toNat + (fitting calls).length ≤ 2 ^ 32) :
    (ctx.sent calls).Pairwise fun f f' => getCounterBe f < getCounterBe f' := by
  rw [List.pairwise_iff_getElem]
  intro i j hi hj hij
  have hcounter (k : Nat) (hk : k < (ctx.sent calls).length) :
      (getCounterBe (ctx.sent calls)[k]).toNat = ctx.sendCounter.toNat + k := by
    have hget := getElem?_sent ctx calls k
    rw [List.getElem?_eq_getElem hk] at hget
    obtain ⟨p, hp, hframe⟩ := Option.map_eq_some_iff.mp hget.symm
    have hlt := (List.getElem?_eq_some_iff.mp hp).1
    rw [← hframe, getCounterBe_frame]
    exact UInt32.toNat_ofNat_of_lt' (by change _ < 2 ^ 32; omega)
  rw [UInt32.lt_iff_toNat_lt, hcounter i hi, hcounter j hj]
  omega

/-- One payload past the end of the counter goes out under 0, below the one before. -/
theorem not_pairwise_sent {ctx : Ctx} {calls : List (Bytes × Nat)}
    (hmany : 2 ^ 32 < ctx.sendCounter.toNat + (fitting calls).length) :
    ¬ (ctx.sent calls).Pairwise fun f f' => getCounterBe f < getCounterBe f' := by
  intro hpairwise
  have hlt := ctx.sendCounter.toNat_lt
  have hlen : (ctx.sent calls).length = (fitting calls).length := by
    rw [sent_eq (UInt32.ofNat_toNat ..).symm calls, length_frames]
  have hwrap : 2 ^ 32 - ctx.sendCounter.toNat < (ctx.sent calls).length := by omega
  have hget := getElem?_sent ctx calls (2 ^ 32 - ctx.sendCounter.toNat)
  rw [List.getElem?_eq_getElem hwrap] at hget
  obtain ⟨p, -, hframe⟩ := Option.map_eq_some_iff.mp hget.symm
  have hsum : ctx.sendCounter.toNat + (2 ^ 32 - ctx.sendCounter.toNat) = 2 ^ 32 := by omega
  have hbelow := List.pairwise_iff_getElem.mp hpairwise 0 _ (by omega) hwrap (by omega)
  rw [← hframe, getCounterBe_frame, hsum] at hbelow
  exact absurd hbelow (by simp [UInt32.lt_iff_toNat_lt])

/-- The counters of a run are as they should be exactly when the run ends before they wrap. -/
theorem strictlyCounted_iff (ctx : Ctx) (calls : List (Bytes × Nat)) :
    StrictlyCounted ctx calls ↔ ctx.sendCounter.toNat + (fitting calls).length ≤ 2 ^ 32 := by
  constructor
  · intro h
    by_contra hmany
    exact not_pairwise_sent (Nat.not_le.mp hmany) h.increasing
  · intro hfew
    have hincreasing := pairwise_sent hfew
    refine ⟨hincreasing, fun k call hcall => afterWraps_take_succ ctx hcall, ?_,
      fun r hkey hfloor => ?_⟩
    · rw [List.nodup_iff_pairwise_ne, List.pairwise_map]
      exact hincreasing.imp fun hlt => UInt32.ne_of_lt hlt
    · rw [sent_eq (UInt32.ofNat_toNat ..).symm calls]
      exact unwrapAll_frames hkey (fun p hp => length_of_mem_fitting hp) hfloor hfew

/-- One payload more than there are counters. -/
theorem not_strictlyCounted_wrap :
    ¬ StrictlyCounted (Ctx.init [7]) (List.replicate (2 ^ 32 + 1) ([1], 64)) := by
  intro h
  refine not_pairwise_sent ?_ h.increasing
  have hfits : Fits [1] 64 := by decide
  rw [fitting, List.filter_replicate_of_pos (by simpa using hfits), List.map_replicate,
    List.length_replicate]
  exact Nat.lt_add_left _ (Nat.lt_succ_self _)

end Ctx

end RtosXrce.Xrce.Secure
