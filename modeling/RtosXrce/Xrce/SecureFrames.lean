import RtosXrce.Library.Machine
import RtosXrce.Xrce.SecureTransport

/-!
# What the secure receiver accepts

`Verifies` is the receiver's tag check as a predicate on byte strings. On the counters of the
verified strings `unwrap` is the record filter of the library, whatever else it is given.
-/

namespace RtosXrce.Xrce.Secure

open Library

theorem getCounterBe_putCounterBe (counter : UInt32) (rest : Bytes) :
    getCounterBe (putCounterBe counter ++ rest) = counter := by
  apply UInt32.eq_of_toBitVec_eq
  ext i hi
  simp [getCounterBe, putCounterBe, -UInt32.toUInt32_toUInt8]
  grind

theorem foldl_or_eq_zero_iff (f : Nat → UInt8) (is : List Nat) (acc : UInt8) :
    is.foldl (fun diff i => diff ||| f i) acc = 0 ↔ acc = 0 ∧ ∀ i ∈ is, f i = 0 := by
  induction is generalizing acc with
  | nil => simp
  | cons i is ih =>
    simp only [List.foldl_cons, ih, List.forall_mem_cons, UInt8.or_eq_zero_iff, and_assoc]

theorem tagDiff_eq_zero_iff {recv expected : Bytes} (hr : tagLen ≤ recv.length)
    (he : tagLen ≤ expected.length) :
    tagDiff recv expected = 0 ↔ recv.take tagLen = expected.take tagLen := by
  unfold tagDiff
  rw [foldl_or_eq_zero_iff]
  simp only [true_and, List.mem_range, UInt8.xor_eq_zero_iff]
  constructor
  · intro h
    apply List.ext_getElem
    · simp [hr, he]
    · intro i h1 h2
      have hi : i < tagLen := by
        simp only [List.length_take] at h1
        omega
      have := h i hi
      grind
  · intro h i hi
    have : (recv.take tagLen).getD i 0 = (expected.take tagLen).getD i 0 := by rw [h]
    grind

theorem tagDiff_eq_zero_iff_of_length {s : Bytes} (h : overhead ≤ s.length) (key : Bytes)
    (counter : UInt32) (payload : Bytes) :
    tagDiff (recvTag s) (computeTag key counter payload) = 0 ↔
      (recvTag s).take tagLen = (computeTag key counter payload).take tagLen := by
  apply tagDiff_eq_zero_iff
  · rw [recvTag, List.length_drop]
    exact Nat.le_sub_of_add_le' h
  · rw [computeTag, Hmac.length_hmacSha256]
    decide

/-- The tag of `s` is attempted and right under `key`. -/
def Verifies (key s : Bytes) : Prop :=
  overhead ≤ s.length ∧ s.length - overhead ≤ macInputScratchLen - counterLen ∧
    (recvTag s).take tagLen = (computeTag key (getCounterBe s) (plain s)).take tagLen

instance (key s : Bytes) : Decidable (Verifies key s) := inferInstanceAs (Decidable (_ ∧ _ ∧ _))

/-- The counter the receiver compares: that of a verified string. -/
def number (key s : Bytes) : Option Nat :=
  if Verifies key s then some (getCounterBe s).toNat else none

/-- The secure payload of `payload` under `counter`. -/
def frame (key : Bytes) (counter : UInt32) (payload : Bytes) : Bytes :=
  putCounterBe counter ++ (computeTag key counter payload).take tagLen ++ payload

section Frame

variable (key : Bytes) (counter : UInt32) (payload : Bytes)

theorem length_frame : (frame key counter payload).length = payload.length + overhead := by
  have hhead : (putCounterBe counter ++
      (computeTag key counter payload).take tagLen).length = overhead := rfl
  rw [frame, List.length_append, hhead, Nat.add_comm]

theorem frame_ne_nil : frame key counter payload ≠ [] := by
  apply List.ne_nil_of_length_pos
  rw [length_frame]
  exact Nat.lt_of_lt_of_le (by decide) (Nat.le_add_left overhead _)

@[simp]
theorem getCounterBe_frame : getCounterBe (frame key counter payload) = counter := by
  rw [frame, List.append_assoc]
  exact getCounterBe_putCounterBe counter _

@[simp]
theorem plain_frame : plain (frame key counter payload) = payload := by
  have hhead : overhead = (putCounterBe counter ++
      (computeTag key counter payload).take tagLen).length := rfl
  unfold plain frame
  rw [hhead, List.drop_left]

variable {payload}

theorem verifies_frame (h : payload.length ≤ macInputScratchLen - counterLen) :
    Verifies key (frame key counter payload) := by
  have hlen := length_frame key counter payload
  refine ⟨by omega, by omega, ?_⟩
  rw [getCounterBe_frame, plain_frame]
  rfl

theorem number_frame (h : payload.length ≤ macInputScratchLen - counterLen) :
    number key (frame key counter payload) = some counter.toNat := by
  simp [number, verifies_frame key counter h]

end Frame

namespace Ctx

variable {ctx : Ctx} {s payload : Bytes} {outCap : Nat}

/-- A call of `xrce_secure_wrap` that does not return 0. -/
def Fits (payload : Bytes) (outCap : Nat) : Prop :=
  payload.length ≤ macInputScratchLen - counterLen ∧ payload.length + overhead ≤ outCap

instance (payload : Bytes) (outCap : Nat) : Decidable (Fits payload outCap) :=
  inferInstanceAs (Decidable (_ ∧ _))

theorem wrap_of_fits (h : Fits payload outCap) :
    ctx.wrap payload outCap =
      ({ ctx with sendCounter := ctx.sendCounter + 1 },
        frame ctx.key ctx.sendCounter payload) := by
  have hroom : ¬(payload.length > macInputScratchLen - counterLen ∨
      outCap < payload.length + overhead) := by
    obtain ⟨hlen, hcap⟩ := h
    omega
  unfold wrap
  rw [if_neg hroom]
  rfl

theorem wrap_of_not_fits (h : ¬Fits payload outCap) : ctx.wrap payload outCap = (ctx, []) := by
  unfold wrap
  apply if_pos
  unfold Fits at h
  omega

theorem unwrap_of_not_verifies (h : ¬Verifies ctx.key s) :
    (ctx.unwrap s).1 = ctx ∧ (ctx.unwrap s).2.isOk = false := by
  unfold unwrap
  split
  case isTrue => exact ⟨rfl, rfl⟩
  case isFalse hlen =>
    have hlow : overhead ≤ s.length := by omega
    have hbad : tagDiff (recvTag s) (computeTag ctx.key (getCounterBe s) (plain s)) ≠ 0 :=
      fun hzero => h ⟨hlow, by omega, (tagDiff_eq_zero_iff_of_length hlow _ _ _).mp hzero⟩
    simp only [if_pos hbad]
    trivial

theorem unwrap_of_verifies (h : Verifies ctx.key s) :
    ctx.unwrap s =
      if ctx.haveReceived = true ∧ getCounterBe s ≤ ctx.lastRecvCounter then (ctx, .replayed)
      else ({ ctx with lastRecvCounter := getCounterBe s, haveReceived := true },
        .ok (plain s)) := by
  obtain ⟨hlow, hhigh, htag⟩ := h
  have hlen : ¬(s.length < overhead ∨ s.length - overhead > macInputScratchLen - counterLen) := by
    omega
  have hzero := (tagDiff_eq_zero_iff_of_length hlow _ _ _).mpr htag
  unfold unwrap
  rw [if_neg hlen]
  simp only [hzero, ne_eq, not_true_eq_false, if_false]

/-- A rejected string leaves the context alone. -/
theorem unwrap_rejected (h : (ctx.unwrap s).2.isOk = false) : (ctx.unwrap s).1 = ctx := by
  by_cases hv : Verifies ctx.key s
  · rw [unwrap_of_verifies hv] at h ⊢
    split
    · rfl
    · rename_i hfresh
      rw [if_neg hfresh] at h
      cases h
  · exact (unwrap_of_not_verifies hv).1

theorem unwrap_ok {p : Bytes} (h : (ctx.unwrap s).2 = .ok p) :
    Verifies ctx.key s ∧ p = plain s := by
  by_cases hv : Verifies ctx.key s
  · refine ⟨hv, ?_⟩
    rw [unwrap_of_verifies hv] at h
    split at h
    · cases h
    · cases h
      rfl
  · have := (unwrap_of_not_verifies hv).2
    rw [h] at this
    cases this

/-- The lowest counter the receiver still accepts. -/
def floor (ctx : Ctx) : Nat :=
  if ctx.haveReceived then ctx.lastRecvCounter.toNat + 1 else 0

theorem unwrap_key : (ctx.unwrap s).1.key = ctx.key := by
  unfold unwrap
  split
  · rfl
  · dsimp only
    split
    · rfl
    · split <;> rfl

/-- `unwrap` is the record filter on the numbers of the strings it is given. -/
theorem unwrap_offer :
    (ctx.unwrap s).1.floor = (Record.offer ctx.floor (number ctx.key s)).1 ∧
      (ctx.unwrap s).2.isOk = (Record.offer ctx.floor (number ctx.key s)).2 := by
  by_cases hv : Verifies ctx.key s
  · rw [unwrap_of_verifies hv, number, if_pos hv]
    cases hrecv : ctx.haveReceived with
    | false => simp [floor, hrecv, Record.offer, Result.isOk]
    | true =>
      by_cases hle : getCounterBe s ≤ ctx.lastRecvCounter
      · have hnat : ¬ctx.lastRecvCounter.toNat + 1 ≤ (getCounterBe s).toNat := by
          rw [UInt32.le_iff_toNat_le] at hle
          omega
        simp [floor, hrecv, hle, Record.offer, Result.isOk, hnat]
      · have hnat : ctx.lastRecvCounter.toNat + 1 ≤ (getCounterBe s).toNat := by
          rw [UInt32.le_iff_toNat_le] at hle
          omega
        simp [floor, hrecv, hle, Record.offer, Result.isOk, hnat]
  · obtain ⟨hctx, hok⟩ := unwrap_of_not_verifies hv
    rw [hctx, hok, number, if_neg hv]
    exact ⟨rfl, rfl⟩

theorem unwrap_ok_iff {p : Bytes} :
    (ctx.unwrap s).2 = .ok p ↔
      Verifies ctx.key s ∧ ctx.floor ≤ (getCounterBe s).toNat ∧ p = plain s := by
  have hok : (ctx.unwrap s).2.isOk = _ := unwrap_offer.2
  constructor
  · intro h
    obtain ⟨hv, hp⟩ := unwrap_ok h
    refine ⟨hv, ?_, hp⟩
    by_contra hlow
    rw [h, number, if_pos hv, Record.offer, if_neg hlow] at hok
    cases hok
  · rintro ⟨hv, hfloor, rfl⟩
    rw [number, if_pos hv, Record.offer, if_pos hfloor] at hok
    cases h : (ctx.unwrap s).2 with
    | ok q => rw [(unwrap_ok h).2]
    | tooShort | badTag | replayed => rw [h] at hok; cases hok

/-- The bytes of a list of `xrce_secure_wrap` calls, each a payload and an output capacity. -/
def wrapAll (ctx : Ctx) (calls : List (Bytes × Nat)) : List Bytes :=
  outputs (fun ctx call => ctx.wrap call.1 call.2) ctx calls

/-- The results of a list of `xrce_secure_unwrap` calls. -/
def unwrapAll (ctx : Ctx) (inputs : List Bytes) : List Result :=
  outputs unwrap ctx inputs

theorem getElem?_wrapAll {calls : List (Bytes × Nat)} (fits : ∀ call ∈ calls, Fits call.1 call.2)
    (ctx : Ctx) (i : Nat) :
    (wrapAll ctx calls)[i]? =
      calls[i]?.map fun call => frame ctx.key (ctx.sendCounter + UInt32.ofNat i) call.1 := by
  induction calls generalizing ctx i with
  | nil => rfl
  | cons call calls ih =>
    have hcall : ctx.wrap call.1 call.2 = _ := wrap_of_fits (fits call List.mem_cons_self)
    cases i with
    | zero => simp [wrapAll, outputs, hcall]
    | succ i =>
      have hrest := ih (fun c hc => fits c (List.mem_cons_of_mem call hc))
        { ctx with sendCounter := ctx.sendCounter + 1 } i
      simp only [wrapAll, outputs, hcall, List.getElem?_cons_succ] at hrest ⊢
      rw [hrest]
      have hcount : ctx.sendCounter + 1 + UInt32.ofNat i =
          ctx.sendCounter + UInt32.ofNat (i + 1) := by
        rw [UInt32.add_assoc, UInt32.ofNat_add, UInt32.add_comm 1]
        rfl
      rw [hcount]

end Ctx

/-- Call `k` returned `XRCE_SECURE_OK`. -/
def Accepted (results : List Result) (k : Nat) : Prop := ∃ p, results[k]? = some (.ok p)

theorem accepted_iff {results : List Result} {k : Nat} :
    Accepted results k ↔ (results.map Result.isOk)[k]? = some true := by
  rw [List.getElem?_map]
  unfold Accepted
  cases h : results[k]? with
  | none => simp
  | some r => cases r <;> simp [Result.isOk]

theorem accepted_unwrapAll_iff (key : Bytes) (inputs : List Bytes) (k : Nat) :
    Accepted ((Ctx.init key).unwrapAll inputs) k ↔
      ∃ i, (inputs[k]?.map (number key)) = some (some i) ∧
        ∀ k' < k, ∀ j, (inputs[k']?.map (number key)) = some (some j) →
          Accepted ((Ctx.init key).unwrapAll inputs) k' → j < i := by
  have hsim : ((Ctx.init key).unwrapAll inputs).map Result.isOk =
      outputs Record.offer 0 (inputs.map (number key)) := by
    refine outputs_simulation (R := fun ctx floor => ctx.key = key ∧ ctx.floor = floor) ?_
      ⟨rfl, rfl⟩
    rintro ctx _ s _ ⟨rfl, rfl⟩
    exact ⟨⟨Ctx.unwrap_key, Ctx.unwrap_offer.1⟩, Ctx.unwrap_offer.2⟩
  simp only [accepted_iff, hsim]
  rw [Record.passes_iff]
  simp only [List.getElem?_map, Nat.zero_le, true_and]

theorem getElem?_unwrapAll_ok {ctx : Ctx} {inputs : List Bytes} {k : Nat} {p : Bytes}
    (h : (ctx.unwrapAll inputs)[k]? = some (.ok p)) :
    ∃ s, inputs[k]? = some s ∧ Verifies ctx.key s ∧ p = plain s := by
  induction inputs generalizing ctx k with
  | nil => simp [Ctx.unwrapAll, outputs] at h
  | cons s inputs ih =>
    cases k with
    | zero => exact ⟨s, rfl, Ctx.unwrap_ok (by simpa [Ctx.unwrapAll, outputs] using h)⟩
    | succ k =>
      have hrest : ((ctx.unwrap s).1.unwrapAll inputs)[k]? = some (.ok p) := by
        simpa [Ctx.unwrapAll, outputs] using h
      obtain ⟨s', hs', hv, hp⟩ := ih hrest
      exact ⟨s', by simpa using hs', by rwa [Ctx.unwrap_key] at hv, hp⟩

/-- Exact acceptance: `fs` are the secure payloads of the calls `calls`, `results` answers the
presented strings. -/
structure ExactAcceptance (calls : List (Bytes × Nat)) (fs : List Bytes)
    (results : List Bytes → List Result) (inputs : List Bytes) : Prop where
  accepts_iff : ∀ (k i : Nat) (f : Bytes), inputs[k]? = some f → fs[i]? = some f →
    (Accepted (results inputs) k ↔ ∀ k' < k, ∀ j ≥ i, ∀ f', inputs[k']? = some f' →
      fs[j]? = some f' → ¬Accepted (results inputs) k')
  yields : ∀ (k i : Nat) (f p : Bytes) (outCap : Nat), inputs[k]? = some f → fs[i]? = some f →
    calls[i]? = some (p, outCap) → Accepted (results inputs) k →
      (results inputs)[k]? = some (.ok p)
  only : ∀ k : Nat, Accepted (results inputs) k →
    ∃ (i : Nat) (f : Bytes), inputs[k]? = some f ∧ fs[i]? = some f
  deletion : ∀ keep : Nat → Bool, (∀ k, keep k = false → ¬Accepted (results inputs) k) →
    results (select keep inputs) = select keep (results inputs)
  increasing : ∀ (k k' i i' : Nat) (f f' : Bytes), k < k' →
    inputs[k]? = some f → fs[i]? = some f → Accepted (results inputs) k →
    inputs[k']? = some f' → fs[i']? = some f' → Accepted (results inputs) k' → i < i'

theorem number_wrapAll {key : Bytes} {calls : List (Bytes × Nat)}
    (few : calls.length ≤ 2 ^ 32) (fits : ∀ call ∈ calls, Ctx.Fits call.1 call.2)
    {i : Nat} {f : Bytes} (h : ((Ctx.init key).wrapAll calls)[i]? = some f) :
    number key f = some i ∧ ∀ p outCap, calls[i]? = some (p, outCap) → plain f = p := by
  rw [Ctx.getElem?_wrapAll fits] at h
  obtain ⟨call, hcall, rfl⟩ := Option.map_eq_some_iff.mp h
  have hi : i < 2 ^ 32 := Nat.lt_of_lt_of_le (List.getElem?_eq_some_iff.mp hcall).1 few
  have hcounter : (Ctx.init key).sendCounter + UInt32.ofNat i = UInt32.ofNat i :=
    UInt32.zero_add _
  have hkey : (Ctx.init key).key = key := rfl
  rw [hcounter, hkey]
  constructor
  · rw [number_frame _ _ (fits call (List.mem_of_getElem? hcall)).1, UInt32.toNat_ofNat_of_lt' hi]
  · intro p outCap hp
    rw [hcall] at hp
    cases hp
    exact plain_frame ..

theorem unwrapAll_select (key : Bytes) (inputs : List Bytes) (keep : Nat → Bool)
    (rejected : ∀ k, keep k = false → ¬Accepted ((Ctx.init key).unwrapAll inputs) k) :
    (Ctx.init key).unwrapAll (select keep inputs) =
      select keep ((Ctx.init key).unwrapAll inputs) := by
  refine outputs_select (I := fun r => r.isOk = false) (fun _ _ => Ctx.unwrap_rejected)
    inputs _ keep fun k r hkeep hr => ?_
  cases r with
  | ok p => exact absurd ⟨p, hr⟩ (rejected k hkeep)
  | tooShort | badTag | replayed => rfl

/-- The receiver accepts a presented payload of the sender exactly when neither it nor a later
one was accepted before, and nothing but the sender's payloads. -/
theorem acceptance_exact {key : Bytes} {calls : List (Bytes × Nat)}
    (few : calls.length ≤ 2 ^ 32) (fits : ∀ call ∈ calls, Ctx.Fits call.1 call.2)
    {inputs : List Bytes}
    (unforged : ∀ s ∈ inputs, Verifies key s → s ∈ (Ctx.init key).wrapAll calls) :
    ExactAcceptance calls ((Ctx.init key).wrapAll calls) (Ctx.init key).unwrapAll inputs := by
  have number_some : ∀ {k j : Nat}, inputs[k]?.map (number key) = some (some j) →
      ∃ f, inputs[k]? = some f ∧ ((Ctx.init key).wrapAll calls)[j]? = some f := by
    intro k j h
    obtain ⟨f, hf, hnum⟩ := Option.map_eq_some_iff.mp h
    have hv : Verifies key f := by
      by_contra hv
      rw [number, if_neg hv] at hnum
      cases hnum
    obtain ⟨i, hi⟩ := List.mem_iff_getElem?.mp (unforged f (List.mem_of_getElem? hf) hv)
    have hij := (number_wrapAll few fits hi).1.symm.trans hnum
    cases hij
    exact ⟨f, hf, hi⟩
  have number_of : ∀ {k i : Nat} {f : Bytes}, inputs[k]? = some f →
      ((Ctx.init key).wrapAll calls)[i]? = some f →
        inputs[k]?.map (number key) = some (some i) := by
    intro k i f hf hi
    rw [hf, Option.map_some, (number_wrapAll few fits hi).1]
  refine ⟨?_, ?_, ?_, unwrapAll_select key inputs, ?_⟩
  · intro k i f hf hi
    rw [accepted_unwrapAll_iff]
    constructor
    · rintro ⟨i', hi', hbelow⟩ k' hk' j hj f' hf' hj' hacc
      have hsame : some (some i') = some (some i) := hi'.symm.trans (number_of hf hi)
      cases hsame
      have hlt := hbelow k' hk' j (number_of hf' hj') hacc
      omega
    · intro hnone
      refine ⟨i, number_of hf hi, fun k' hk' j hj hacc => ?_⟩
      obtain ⟨f', hf', hj'⟩ := number_some hj
      by_contra hge
      exact hnone k' hk' j (by omega) f' hf' hj' hacc
  · rintro k i f p outCap hf hi hcall ⟨q, hq⟩
    obtain ⟨s, hs, -, rfl⟩ := getElem?_unwrapAll_ok hq
    rw [hf] at hs
    cases hs
    rw [hq, (number_wrapAll few fits hi).2 p outCap hcall]
  · intro k hacc
    obtain ⟨i, hi, -⟩ := (accepted_unwrapAll_iff key inputs k).mp hacc
    obtain ⟨f, hf, hi⟩ := number_some hi
    exact ⟨i, f, hf, hi⟩
  · intro k k' i i' f f' hlt hf hi hacc hf' hi' hacc'
    obtain ⟨m, hm, hbelow⟩ := (accepted_unwrapAll_iff key inputs k').mp hacc'
    have hsame : some (some m) = some (some i') := hm.symm.trans (number_of hf' hi')
    cases hsame
    exact hbelow k hlt i (number_of hf hi) hacc

/-- Two payloads, a truncated string, and both payloads again. -/
theorem acceptance_exact_replay :
    ExactAcceptance [([1], 64), ([2, 3], 64)] ((Ctx.init [7]).wrapAll [([1], 64), ([2, 3], 64)])
      (Ctx.init [7]).unwrapAll
      ((Ctx.init [7]).wrapAll [([1], 64), ([2, 3], 64)] ++
        [0] :: (Ctx.init [7]).wrapAll [([1], 64), ([2, 3], 64)]) := by
  apply acceptance_exact (by decide) (by decide)
  intro s hs hv
  rcases List.mem_append.mp hs with hs | hs
  · exact hs
  · rcases List.mem_cons.mp hs with rfl | hs
    · exact absurd hv.1 (by decide)
    · exact hs

end RtosXrce.Xrce.Secure
