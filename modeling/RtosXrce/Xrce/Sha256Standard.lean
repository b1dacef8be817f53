import RtosXrce.Library.Fips180
import RtosXrce.Xrce.Sha256

/-!
# The streaming hash computes the standard's digest

`process_block` is the compression of FIPS 180-4, with the code's tables being the roots the
standard asks for. A context that has `Absorbed` a message holds the hash value of its whole blocks
and, in the buffer, what is left; `update` extends the message, and the padding of `final` is the
padding of the standard, fed through `update`.
-/

namespace RtosXrce.Xrce.Sha256

open Library

/-! ## The constants -/

theorem K_toBitVec {t : Nat} (ht : t < 64) : (K.getD t 0).toBitVec = Fips180.rootWord 3 t := by
  have htable : ∀ t < 64, (K.getD t 0).toBitVec =
      BitVec.ofNat 32 (Nat.nthRoot 3 (Fips180.primes.getD t 0 * 2 ^ (32 * 3))) := by decide +kernel
  rw [Fips180.rootWord, Fips180.nth_prime_eq ht, htable t ht]

/-- The hash value a context holds. -/
def Words.value (v : Words) : Fips180.HashValue :=
  ![v.a.toBitVec, v.b.toBitVec, v.c.toBitVec, v.d.toBitVec,
    v.e.toBitVec, v.f.toBitVec, v.g.toBitVec, v.h.toBitVec]

theorem value_init (stale : Vector UInt8 blockLen) :
    (init stale).state.value = Fips180.initial := by
  have htable : ∀ i : Fin 8, (init (Vector.replicate blockLen 0)).state.value i =
      BitVec.ofNat 32 (Nat.nthRoot 2 (Fips180.primes.getD i 0 * 2 ^ (32 * 2))) := by decide +kernel
  funext i
  rw [Fips180.initial, Fips180.rootWord, Fips180.nth_prime_eq (by omega)]
  exact htable i

/-! ## One block -/

theorem rotr_toBitVec (x n : UInt32) (hpos : 0 < n.toNat) (hlt : n.toNat < 32) :
    (rotr x n).toBitVec = x.toBitVec.rotateRight n.toNat := by
  have hleft : (4294967296 - n.toNat) % 32 = 32 - n.toNat % 32 := by omega
  simp [rotr, BitVec.rotateRight_def, hleft]

theorem or_shifts_eq_append (x y z w : BitVec 8) :
    x.setWidth 32 <<< 24 ||| y.setWidth 32 <<< 16 ||| z.setWidth 32 <<< 8 ||| w.setWidth 32 =
      x ++ y ++ z ++ w := by
  apply BitVec.eq_of_getLsbD_eq
  intro i hi
  have happend : (x ++ y ++ z ++ w).getLsbD i =
      if i < 8 then w.getLsbD i
      else if i < 16 then z.getLsbD (i - 8)
      else if i < 24 then y.getLsbD (i - 16)
      else x.getLsbD (i - 24) := by
    simp only [BitVec.getLsbD_append, Nat.sub_sub]
    grind
  simp only [BitVec.getLsbD_or, BitVec.getLsbD_shiftLeft, BitVec.getLsbD_setWidth]
  grind

theorem blockWord_toBitVec (block : Bytes) (t : Nat) :
    (blockWord block t).toBitVec = Fips180.messageWord block t := by
  simp only [blockWord, Fips180.messageWord, Nat.mul_comm t 4, ← or_shifts_eq_append]
  simp

/-- After `n` turns the schedule loop has the words of the standard up to `16 + n`. -/
theorem extend_spec (block : Bytes) (n : Nat) :
    let w := (List.range' 16 n).foldl extend ((List.range 16).map (blockWord block))
    w.length = 16 + n ∧ ∀ t < 16 + n, (w.getD t 0).toBitVec = Fips180.W block t := by
  induction n with
  | zero =>
    refine ⟨by simp, fun t ht => ?_⟩
    have hword : ((List.range 16).map (blockWord block)).getD t 0 = blockWord block t := by
      simp [List.getD_eq_getElem?_getD, ht]
    rw [Fips180.W, if_pos ht, ← blockWord_toBitVec]
    exact congrArg UInt32.toBitVec hword
  | succ n ih =>
    obtain ⟨hlen, hwords⟩ := ih
    simp only [List.range'_concat, List.foldl_append, List.foldl_cons, List.foldl_nil, Nat.one_mul]
    generalize (List.range' 16 n).foldl extend ((List.range 16).map (blockWord block)) = w
      at hlen hwords
    refine ⟨by simp [extend, hlen]; omega, fun t ht => ?_⟩
    by_cases hlt : t < 16 + n
    · rw [extend, List.getD_append _ _ _ _ (by omega)]
      exact hwords t hlt
    · obtain rfl : t = 16 + n := by omega
      rw [extend, List.getD_append_right _ _ _ _ (by omega), hlen, Nat.sub_self, Fips180.W,
        if_neg (by omega), ← hwords _ (by omega), ← hwords _ (by omega), ← hwords _ (by omega),
        ← hwords _ (by omega)]
      simp [Fips180.smallSigma0, Fips180.smallSigma1, rotr_toBitVec]
      ac_rfl

theorem schedule_spec (block : Bytes) {t : Nat} (ht : t < 64) :
    ((schedule block).getD t 0).toBitVec = Fips180.W block t :=
  (extend_spec block 48).2 t ht

theorem value_round (block : Bytes) (v : Words) {t : Nat} (ht : t < 64) :
    (round (schedule block) v t).value = Fips180.round block v.value t := by
  simp [round, Fips180.round, Words.value, Fips180.bigSigma0, Fips180.bigSigma1, Fips180.ch,
    Fips180.maj, rotr_toBitVec, ← K_toBitVec ht, ← schedule_spec block ht]

theorem value_rounds (block : Bytes) (v : Words) {n : Nat} (hn : n ≤ 64) :
    ((List.range n).foldl (round (schedule block)) v).value =
      (List.range n).foldl (Fips180.round block) v.value := by
  induction n with
  | zero => rfl
  | succ n ih =>
    simp only [List.range_succ, List.foldl_append, List.foldl_cons, List.foldl_nil]
    rw [value_round block _ (by omega), ih (by omega)]

theorem value_processBlock (v : Words) (block : Bytes) :
    (processBlock v block).value = Fips180.compress v.value block := by
  funext i
  rw [Fips180.compress, ← value_rounds block v le_rfl]
  match i with
  | 0 | 1 | 2 | 3 | 4 | 5 | 6 | 7 => rfl

/-! ## The stream -/

theorem take_copyAt (buf : Vector UInt8 blockLen) (off : Nat) (src : Bytes)
    (hfit : off + src.length ≤ 64) :
    (copyAt buf off src).toList.take (off + src.length) = buf.toList.take off ++ src := by
  have hpre : (buf.toList.take off).length = off := by
    rw [List.length_take, Vector.length_toList]
    exact Nat.min_eq_left (by simp only [blockLen]; omega)
  apply List.ext_getElem
  · rw [List.length_append, hpre, List.length_take, Vector.length_toList]
    exact Nat.min_eq_left hfit
  · intro i hi hi'
    have hlt : i < off + src.length := by
      rw [List.length_append, hpre] at hi'
      exact hi'
    by_cases hoff : i < off
    · have hnot : ¬ off ≤ i := by omega
      rw [List.getElem_append_left (by omega)]
      simp [copyAt, hnot]
    · have hle : off ≤ i := by omega
      have hsub : i - off < src.length := by omega
      rw [List.getElem_append_right (by omega)]
      simp [copyAt, hle, hlt, hsub, hpre]

/-- The number of whole blocks in a message. -/
def whole (m : Bytes) : Nat := m.length / 64

/-- The context stands after the bytes `m`: the hash value of the whole blocks, the rest in the
buffer. -/
structure Absorbed (ctx : Ctx) (m : Bytes) : Prop where
  value : ctx.state.value = Fips180.H m (whole m)
  bufLen : ctx.bufLen = m.length % 64
  buffered : ctx.buf.toList.take ctx.bufLen = m.drop (64 * whole m)

theorem absorbed_init (stale : Vector UInt8 blockLen) : Absorbed (init stale) [] where
  value := value_init stale
  bufLen := rfl
  buffered := rfl

theorem value_block {state : Words} {m block : Bytes} {n : Nat} (hm : m.length = 64 * n)
    (hblock : block.length = 64) (hv : state.value = Fips180.H m n) :
    (processBlock state block).value = Fips180.H (m ++ block) (n + 1) := by
  have hlast : Fips180.blockAt (m ++ block) n = block := by
    rw [Fips180.blockAt, List.drop_append_of_le_length (by omega), ← hm, List.drop_length,
      List.nil_append]
    exact List.take_of_length_le hblock.le
  rw [value_processBlock, hv, Fips180.H, hlast, Fips180.H_append block (by omega)]

theorem blocks_spec (state : Words) (data : Bytes) {m : Bytes} {n : Nat}
    (hm : m.length = 64 * n) (hv : state.value = Fips180.H m n) :
    (blocks state data).1.value = Fips180.H (m ++ data) (whole (m ++ data)) ∧
      (blocks state data).2 = (m ++ data).drop (64 * whole (m ++ data)) := by
  fun_induction blocks state data generalizing m n with
  | case1 state data h ih =>
    have htake : (data.take 64).length = 64 := List.length_take_of_le h
    have hlen : (m ++ data.take 64).length = 64 * (n + 1) := by
      rw [List.length_append, htake, hm]
      omega
    have hrest := ih hlen (value_block hm htake hv)
    rwa [List.append_assoc, List.take_append_drop] at hrest
  | case2 state data h =>
    have hlt : data.length < 64 := Nat.lt_of_not_le h
    have hwhole : whole (m ++ data) = n := by
      rw [whole, List.length_append, hm]
      omega
    rw [hwhole, Fips180.H_append data (by omega), List.drop_append_of_le_length (by omega), ← hm,
      List.drop_length, List.nil_append]
    exact ⟨hv, rfl⟩

theorem absorb_spec {ctx : Ctx} (data : Bytes) {m : Bytes} {n : Nat}
    (hm : m.length = 64 * n) (hv : ctx.state.value = Fips180.H m n) (hempty : ctx.bufLen = 0) :
    Absorbed (absorb ctx data) (m ++ data) := by
  obtain ⟨hstate, hleft⟩ := blocks_spec ctx.state data hm hv
  have hlength : (blocks ctx.state data).2.length = (m ++ data).length % 64 := by
    rw [hleft, List.length_drop, whole]
    omega
  have hshort : (blocks ctx.state data).2.length < 64 := length_blocks ctx.state data
  simp only [absorb]
  split
  case isTrue hpos =>
    refine ⟨hstate, hlength, ?_⟩
    have hcopy := take_copyAt ctx.buf 0 (blocks ctx.state data).2 (by omega)
    rw [Nat.zero_add] at hcopy
    rw [hcopy, List.take_zero, List.nil_append, hleft]
  case isFalse hzero =>
    have hnil : (blocks ctx.state data).2 = [] := List.length_eq_zero_iff.mp (by omega)
    refine ⟨hstate, ?_, ?_⟩
    · rw [← hlength, hnil]
      exact hempty
    · rw [← hleft, hnil]
      simp only [hempty, List.take_zero]

/-- `update` absorbs the bytes it is given, wherever the buffer stands. -/
theorem update_spec {ctx : Ctx} {m : Bytes} (h : Absorbed ctx m) (data : Bytes) :
    Absorbed (update ctx data) (m ++ data) := by
  have hlen := h.bufLen
  have hlt : ctx.bufLen < 64 := ctx.bufLen_lt
  have hsplit : 64 * whole m + ctx.bufLen = m.length := by
    rw [hlen, whole]
    omega
  by_cases hpos : 0 < ctx.bufLen
  case neg =>
    have hzero : ctx.bufLen = 0 := by omega
    rw [update, if_neg hpos]
    exact absorb_spec data (by omega) h.value hzero
  by_cases hshort : data.length < 64 - ctx.bufLen
  · -- the buffer takes everything and stays short of a block
    have hnot : ¬ ctx.bufLen + data.length = 64 := by omega
    simp only [update, blockLen, if_pos hpos, if_pos hshort, List.drop_length, List.take_length,
      dif_neg hnot, absorb_nil]
    have hwhole : whole (m ++ data) = whole m := by
      simp only [whole, List.length_append]
      omega
    refine ⟨?_, ?_, ?_⟩
    · rw [hwhole, Fips180.H_append data (by omega)]
      exact h.value
    · simp only [List.length_append]
      omega
    · rw [take_copyAt _ _ _ (by omega), h.buffered, hwhole,
        List.drop_append_of_le_length (by omega)]
  · -- the buffer fills up, and the rest starts on a block boundary
    have hfull : ctx.bufLen + (64 - ctx.bufLen) = 64 := by omega
    simp only [update, blockLen, if_pos hpos, if_neg hshort, dif_pos hfull]
    generalize hfirst : data.take (64 - ctx.bufLen) = first
    have hflen : first.length = 64 - ctx.bufLen := by
      rw [← hfirst, List.length_take]
      omega
    have hbuf : (copyAt ctx.buf ctx.bufLen first).toList = m.drop (64 * whole m) ++ first := by
      rw [← h.buffered, ← take_copyAt ctx.buf ctx.bufLen first (by omega)]
      exact (List.take_of_length_le (by rw [Vector.length_toList, hflen]; exact hfull.ge)).symm
    have hprefix : (m.take (64 * whole m)).length = 64 * whole m := by
      rw [List.length_take]
      omega
    have hvalue : (m.take (64 * whole m)) ++ (m.drop (64 * whole m) ++ first) =
        m ++ first := by
      rw [← List.append_assoc, List.take_append_drop]
    have hH : ctx.state.value = Fips180.H (m.take (64 * whole m)) (whole m) := by
      have hall := Fips180.H_append (m.drop (64 * whole m)) (le_of_eq hprefix.symm)
      rw [List.take_append_drop] at hall
      rw [h.value, hall]
    have hdata : m ++ data = (m ++ first) ++ data.drop (64 - ctx.bufLen) := by
      rw [← hfirst, List.append_assoc, List.take_append_drop]
    rw [hdata]
    refine absorb_spec _ (n := whole m + 1) ?_ ?_ rfl
    · rw [List.length_append]
      omega
    · rw [hbuf, ← hvalue]
      exact value_block hprefix (by rw [← hbuf]; simp) hH

theorem update_totalLen (ctx : Ctx) (data : Bytes) :
    (update ctx data).totalLen = ctx.totalLen + UInt64.ofNat data.length := by
  have habsorb (ctx : Ctx) (rest : Bytes) : (absorb ctx rest).totalLen = ctx.totalLen := by
    simp only [absorb]
    split <;> rfl
  simp only [update]
  split
  · split <;> split <;> rw [habsorb]
  · rw [habsorb]

theorem updates_spec {ctx : Ctx} {m : Bytes} (h : Absorbed ctx m)
    (htotal : ctx.totalLen = UInt64.ofNat m.length) (chunks : List Bytes) :
    Absorbed (chunks.foldl update ctx) (m ++ chunks.flatten) ∧
      (chunks.foldl update ctx).totalLen = UInt64.ofNat (m ++ chunks.flatten).length := by
  induction chunks generalizing ctx m with
  | nil => simpa using And.intro h htotal
  | cons chunk chunks ih =>
    have hstep : (update ctx chunk).totalLen = UInt64.ofNat (m ++ chunk).length := by
      rw [update_totalLen, htotal, List.length_append, UInt64.ofNat_add]
    simpa [List.append_assoc] using ih (update_spec h chunk) hstep

/-! ## The padding -/

theorem Absorbed.with_totalLen {ctx : Ctx} {m : Bytes} (h : Absorbed ctx m) (n : UInt64) :
    Absorbed { ctx with totalLen := n } m := ⟨h.value, h.bufLen, h.buffered⟩

/-- The padding loop absorbs zeros up to the place of the length. -/
theorem padZeros_spec {ctx : Ctx} {m : Bytes} (h : Absorbed ctx m) :
    Absorbed (padZeros ctx) (m ++ List.replicate ((120 - m.length % 64) % 64) 0) := by
  fun_induction padZeros ctx generalizing m with
  | case1 ctx hne padded =>
    rename_i ih
    have hlen := h.bufLen
    have hne' : ctx.bufLen ≠ 56 := hne
    have hcount : (120 - m.length % 64) % 64 = (120 - (m ++ [0]).length % 64) % 64 + 1 := by
      rw [List.length_append, List.length_singleton]
      omega
    have hrest := ih ((update_spec h [0]).with_totalLen _)
    rwa [List.append_assoc, List.singleton_append, ← List.replicate_succ, ← hcount] at hrest
  | case2 ctx heq =>
    have hlen := h.bufLen
    have heq' : ctx.bufLen = 56 := not_not.mp heq
    have hzero : (120 - m.length % 64) % 64 = 0 := by omega
    rw [hzero, List.replicate_zero, List.append_nil]
    exact h

theorem wordBytes_eq (w : UInt32) : wordBytes w = Fips180.bigEndian 4 w.toBitVec := by
  have hlow : w.toBitVec.setWidth 8 = w.toBitVec.extractLsb' 0 8 := setWidth_shift w.toBitVec 0
  simp [wordBytes, Fips180.bigEndian, List.ofFn_succ, ← UInt8.toBitVec_inj, setWidth_shift, hlow]

theorem lenBytes_eq (n : UInt64) : lenBytes n = Fips180.bigEndian 8 n.toBitVec := by
  have hlow : n.toBitVec.setWidth 8 = n.toBitVec.extractLsb' 0 8 := setWidth_shift n.toBitVec 0
  simp [lenBytes, Fips180.bigEndian, List.ofFn_succ, List.range_succ, ← UInt8.toBitVec_inj,
    setWidth_shift, hlow]

theorem toList_flatMap_wordBytes (v : Words) :
    v.toList.flatMap wordBytes = (List.ofFn v.value).flatMap (Fips180.bigEndian 4) := by
  simp [Words.toList, Words.value, List.ofFn_succ, wordBytes_eq]

theorem bitLen_eq {m : Bytes} (short : 8 * m.length < 2 ^ 64) :
    (UInt64.ofNat m.length * 8).toBitVec = BitVec.ofNatLT (8 * m.length) short := by
  apply BitVec.eq_of_toNat_eq
  rw [UInt64.toNat_toBitVec, UInt64.toNat_mul, UInt64.toNat_ofNat', BitVec.toNat_ofNatLT]
  change m.length % 2 ^ 64 * 8 % 2 ^ 64 = _
  omega

theorem final_spec {ctx : Ctx} {m : Bytes} (h : Absorbed ctx m)
    (htotal : ctx.totalLen = UInt64.ofNat m.length) (short : 8 * m.length < 2 ^ 64) :
    (final ctx).2 = Fips180.digest ⟨m, short⟩ := by
  have hzeros : (120 - (m ++ [0x80]).length % 64) % 64 = Fips180.zeroBytes m.length := by
    rw [List.length_append, List.length_singleton, Fips180.zeroBytes]
    omega
  have hone := (update_spec h [0x80]).with_totalLen ((update ctx [0x80]).totalLen - 1)
  have hlen : lenBytes (ctx.totalLen * 8) =
      Fips180.bigEndian 8 (BitVec.ofNatLT (8 * m.length) short) := by
    rw [lenBytes_eq, htotal, bitLen_eq short]
  have hpadded := update_spec (padZeros_spec hone) (lenBytes (ctx.totalLen * 8))
  have hpad : m ++ [0x80] ++ List.replicate ((120 - (m ++ [0x80]).length % 64) % 64) 0 ++
      lenBytes (ctx.totalLen * 8) = Fips180.pad ⟨m, short⟩ := by
    rw [hzeros, hlen, Fips180.pad]
  rw [hpad] at hpadded
  rw [final, toList_flatMap_wordBytes, hpadded.value]
  rfl

/-- The digest of a message handed over in chunks. -/
def streamed (stale : Vector UInt8 blockLen) (chunks : List Bytes) : Bytes :=
  (final (chunks.foldl update (init stale))).2

theorem streamed_spec (stale : Vector UInt8 blockLen) (chunks : List Bytes)
    (short : 8 * chunks.flatten.length < 2 ^ 64) :
    streamed stale chunks = Fips180.digest ⟨chunks.flatten, short⟩ := by
  obtain ⟨habsorbed, htotal⟩ := updates_spec (absorbed_init stale) rfl chunks
  exact final_spec habsorbed htotal short

/-- However the message is split, and whatever the buffer held before, the stream yields the
standard's digest of it, which is also what the one-shot function returns. -/
theorem streamed_eq_digest (stale : Vector UInt8 blockLen) (chunks : List Bytes)
    (short : chunks.flatten.length < 2 ^ 61) :
    streamed stale chunks = Fips180.digest ⟨chunks.flatten, by omega⟩ ∧
      streamed stale chunks = sha256 chunks.flatten ∧
      ∀ stale' chunks', chunks'.flatten = chunks.flatten →
        streamed stale' chunks' = streamed stale chunks := by
  have hdigest := streamed_spec stale chunks (by omega)
  refine ⟨hdigest, ?_, ?_⟩
  · have hone := streamed_spec (Vector.replicate blockLen 0) [chunks.flatten]
      (by simp only [List.flatten_singleton]; omega)
    simp only [List.flatten_singleton] at hone
    rw [hdigest, ← hone]
    rfl
  · intro stale' chunks' hsame
    rw [hdigest, streamed_spec stale' chunks' (by rw [hsame]; omega)]
    simp only [hsame]

theorem streamed_eq_digest_abc :
    [[97], [], [98, 99]].flatten.length < 2 ^ 61 ∧
      streamed (Vector.replicate blockLen 0xaa) [[97], [], [98, 99]] = sha256 [97, 98, 99] :=
  ⟨by decide, (streamed_eq_digest _ [[97], [], [98, 99]] (by decide)).2.1⟩

end RtosXrce.Xrce.Sha256
