import Mathlib
import RtosXrce.Arm.KernelArm

/-!
# What a context switch saves and restores

`PendSV_Handler` and the hardware together put sixteen words below the stack pointer of the
thread that is preempted; `restore` is what they make of such sixteen words when the thread gets
the processor back. `restore_save` says that nothing is lost, `pendsv_spec` what a switch
does to the whole memory.
-/

namespace RtosXrce.Arm

theorem Memory.store_get {m : Memory} {p : Pointer} {ws : List Word} {k : Nat}
    (hk : k < 2 ^ 30) (h : k < ws.length) : m.store p ws (p + BitVec.ofNat 30 k) = ws[k] := by
  have hoff : (p + BitVec.ofNat 30 k - p).toNat = k := by bv_omega
  rw [Memory.store, hoff, List.getElem?_eq_getElem h, Option.getD_some]

theorem Memory.store_of_le {m : Memory} {p : Pointer} {ws : List Word} {a : Pointer}
    (h : ws.length ≤ (a - p).toNat) : m.store p ws a = m a := by
  simp only [Memory.store, List.getElem?_eq_none h, Option.getD_none]

theorem Memory.store_single_self (m : Memory) (p : Pointer) (w : Word) : m.store p [w] p = w := by
  simp [Memory.store]

theorem Memory.store_single_ne {m : Memory} {p a : Pointer} {w : Word} (h : a ≠ p) :
    m.store p [w] a = m a := by
  apply Memory.store_of_le
  simp only [List.length_singleton]
  bv_omega

/-! ## The frame of sixteen words -/

theorem getLsbD_not_one {i : Nat} (hi : i < 30) : (~~~1#30).getLsbD i = !decide (i = 0) := by
  rw [BitVec.getLsbD_not, BitVec.getLsbD_one]
  simp [hi]

theorem and_not_one (p : Pointer) : p &&& ~~~1#30 = p - BitVec.ofNat 30 (p.toNat % 2) := by
  have hshift : p &&& ~~~1#30 = p >>> 1 <<< 1 := by
    apply BitVec.eq_of_getLsbD_eq
    intro i hi
    rw [BitVec.getLsbD_and, getLsbD_not_one hi, BitVec.getLsbD_shiftLeft,
      BitVec.getLsbD_ushiftRight]
    rcases Nat.eq_zero_or_pos i with rfl | hpos
    · simp
    · have hsucc : 1 + (i - 1) = i := by omega
      simp [hi, hsucc, Nat.ne_of_gt hpos, Nat.not_lt_of_ge hpos]
  rw [hshift]
  apply BitVec.eq_of_toNat_eq
  simp only [BitVec.toNat_shiftLeft, BitVec.toNat_ushiftRight, Nat.shiftRight_eq_div_pow,
    Nat.shiftLeft_eq]
  bv_omega

theorem or_align (p : Pointer) :
    (p &&& ~~~1#30) ||| (BitVec.ofBool (p.getLsbD 0)).setWidth 30 = p := by
  apply BitVec.eq_of_getLsbD_eq
  intro i hi
  rw [BitVec.getLsbD_or, BitVec.getLsbD_and, getLsbD_not_one hi]
  rcases Nat.eq_zero_or_pos i with rfl | hpos
  · simp
  · simp [BitVec.getLsbD_ofBool, Nat.ne_of_gt hpos]

/-- Where `PendSV_Handler` leaves the stack pointer it saves. -/
def saveArea (c : Context) : Pointer := frameptr c - 8

/-- What exception entry and `stmdb r0!, {r4-r11}` store. -/
def save (c : Context) (m : Memory) : Memory :=
  (exceptionEntry c m).2.store (saveArea c) (calleeSaved c.r)

/-- What `ldmia r0!, {r4-r11}` and exception return load. -/
def restore (m : Memory) (p : Pointer) : Context :=
  exceptionReturn (loadCalleeSaved (fun _ => 0) p m) (p + 8) m

/-- The context with these words at `p`: `r4` to `r11` in `low`, the hardware's in `high`. -/
def fromWords (p : Pointer) (low high : Nat → Word) : Context where
  r i := if i < 4 then high i else if i = 12 then high 4 else low (i - 4)
  sp := (p + 8 + 8) ||| (BitVec.ofBool ((high 7).getLsbD 9)).setWidth 30
  lr := high 5
  pc := (high 6).extractLsb' 1 31
  psr := (high 7).extractLsb' 10 22

theorem frameptr_eq (c : Context) :
    frameptr c = c.sp - 8 - BitVec.ofNat 30 (c.sp.toNat % 2) := by
  unfold frameptr
  rw [and_not_one]
  bv_omega

theorem saveArea_eq (c : Context) :
    saveArea c = c.sp - 16 - BitVec.ofNat 30 (c.sp.toNat % 2) := by
  unfold saveArea
  rw [frameptr_eq]
  bv_omega

theorem saveArea_add (c : Context) : saveArea c + 8 = frameptr c := by
  unfold saveArea
  bv_omega

theorem frameptr_add (c : Context) : frameptr c + 8 = c.sp &&& ~~~1#30 := by
  rw [frameptr_eq, and_not_one]
  bv_omega

theorem save_high (c : Context) (m : Memory) {k : Nat} (hk : k < 8) :
    save c m (saveArea c + 8 + BitVec.ofNat 30 k) = (hardwareFrame c).get ⟨k, hk⟩ := by
  have hlen : (calleeSaved c.r).length = 8 := rfl
  unfold save exceptionEntry
  rw [Memory.store_of_le (by rw [hlen]; bv_omega), saveArea_add]
  exact Memory.store_get (by omega) hk

theorem save_low (c : Context) (m : Memory) {k : Nat} (hk : k < 8) :
    save c m (saveArea c + BitVec.ofNat 30 k) = (calleeSaved c.r).get ⟨k, hk⟩ :=
  Memory.store_get (by omega) hk

theorem save_other {c : Context} {m : Memory} {a : Pointer} (h : 16 ≤ (a - saveArea c).toNat) :
    save c m a = m a := by
  have hlen : (calleeSaved c.r).length = 8 := rfl
  have hlen' : (hardwareFrame c).length = 8 := rfl
  unfold save exceptionEntry
  rw [Memory.store_of_le (by omega)]
  refine Memory.store_of_le ?_
  rw [hlen', ← saveArea_add]
  bv_omega

@[ext] theorem Context.ext {c c' : Context} (r : c.r = c'.r) (sp : c.sp = c'.sp)
    (lr : c.lr = c'.lr) (pc : c.pc = c'.pc) (psr : c.psr = c'.psr) : c = c' := by
  cases c
  cases c'
  simp_all

theorem extract_pc (pc : BitVec 31) : (pc ++ 0#1).extractLsb' 1 31 = pc := by
  apply BitVec.eq_of_getLsbD_eq
  intro i hi
  simp only [BitVec.getLsbD_extractLsb', BitVec.getLsbD_append]
  simp [hi]

theorem extract_psr (psr : BitVec 22) (b : Bool) :
    (psr ++ BitVec.ofBool b ++ 0#9).extractLsb' 10 22 = psr := by
  apply BitVec.eq_of_getLsbD_eq
  intro i hi
  have hnine : ¬ 10 + i < 9 := by omega
  have hone : ¬ 10 + i - 9 < 1 := by omega
  have hback : 10 + i - 9 - 1 = i := by omega
  simp only [BitVec.getLsbD_extractLsb', BitVec.getLsbD_append, hnine, hone, hback]
  simp [hi]

theorem align_bit (psr : BitVec 22) (b : Bool) :
    (psr ++ BitVec.ofBool b ++ 0#9).getLsbD 9 = b := by
  simp only [BitVec.getLsbD_append]
  simp

/-- What was in the registers before they are loaded does not matter. -/
theorem exceptionReturn_eq (r : Fin 13 → Word) (m : Memory) (p : Pointer) :
    exceptionReturn (loadCalleeSaved r p m) (p + 8) m =
      fromWords p (fun k => m (p + BitVec.ofNat 30 k))
        (fun k => m (p + 8 + BitVec.ofNat 30 k)) := by
  apply Context.ext
  · funext i
    simp only [fromWords, exceptionReturn, loadCalleeSaved]
    have := i.isLt
    split
    case isTrue => rfl
    split
    case isTrue => rfl
    split
    case isTrue => rfl
    case isFalse hlow _ hmid => omega
  all_goals rfl

theorem fromWords_congr {p : Pointer} {low low' high high' : Nat → Word}
    (hlow : ∀ k, k < 8 → low k = low' k) (hhigh : ∀ k, k < 8 → high k = high' k) :
    fromWords p low high = fromWords p low' high' := by
  unfold fromWords
  rw [hhigh 4 (by omega), hhigh 5 (by omega), hhigh 6 (by omega), hhigh 7 (by omega)]
  congr 1
  funext i
  have := i.isLt
  split
  case isTrue => exact hhigh i (by omega)
  split
  case isTrue => rfl
  case isFalse => exact hlow _ (by omega)

/-- Only the sixteen words count. -/
theorem restore_eq {m : Memory} {p : Pointer} {low high : Nat → Word}
    (hlow : ∀ k, k < 8 → m (p + BitVec.ofNat 30 k) = low k)
    (hhigh : ∀ k, k < 8 → m (p + 8 + BitVec.ofNat 30 k) = high k) :
    restore m p = fromWords p low high :=
  (exceptionReturn_eq _ m p).trans (fromWords_congr hlow hhigh)

theorem restore_congr {m m' : Memory} {p : Pointer}
    (h : ∀ k, k < 16 → m (p + BitVec.ofNat 30 k) = m' (p + BitVec.ofNat 30 k)) :
    restore m p = restore m' p := by
  refine (restore_eq ?_ ?_).trans (exceptionReturn_eq _ m' p).symm
  · intro k hk
    exact h k (by omega)
  · intro k hk
    have hsum : p + 8 + BitVec.ofNat 30 k = p + BitVec.ofNat 30 (8 + k) := by bv_omega
    rw [hsum]
    exact h (8 + k) (by omega)

theorem restore_save_words (c : Context) (m : Memory) : restore (save c m) (saveArea c) =
    fromWords (saveArea c) (fun k => (calleeSaved c.r).getD k 0)
      (fun k => (hardwareFrame c).getD k 0) := by
  apply restore_eq
  · intro k hk
    rw [save_low c m hk]
    exact (List.getD_eq_getElem _ 0 hk).symm
  · intro k hk
    rw [save_high c m hk]
    exact (List.getD_eq_getElem _ 0 hk).symm

/-- A thread gets back the registers it had. -/
theorem restore_save (c : Context) (m : Memory) : restore (save c m) (saveArea c) = c := by
  rw [restore_save_words]
  apply Context.ext
  · funext i
    fin_cases i <;> rfl
  · have hxpsr : ((hardwareFrame c).getD 7 0).getLsbD 9 = c.sp.getLsbD 0 := align_bit c.psr _
    simp only [fromWords, hxpsr]
    rw [saveArea_add, frameptr_add]
    exact or_align c.sp
  · rfl
  · exact extract_pc c.pc
  · exact extract_psr c.psr _

/-! ## The statics -/

/-- Where the stack of a thread is; `main` uses the boot scratch stack. -/
def Layout.stack (L : Layout) : Option (Fin numTasks) → Region
  | none => L.bootScratch
  | some i => L.taskStack i

/-- The words of `task_sp` and `current_task_idx`. -/
def Layout.bookkeeping (L : Layout) (a : Pointer) : Prop :=
  (a - L.taskSp).toNat < numTasks ∨ a = L.currentTaskIdx

theorem Region.mem_iff {r : Region} {a : Pointer} : a ∈ r ↔ (a - r.base).toNat < r.size := Iff.rfl

section Statics

variable {L : Layout} {a : Pointer}

theorem Layout.taskStack_subset {i : Fin numTasks} (h : a ∈ L.taskStack i) :
    a ∈ (⟨L.taskStacks, numTasks * stackWords⟩ : Region) := by
  have hi := i.isLt
  simp only [Region.mem_iff, Layout.taskStack, numTasks, stackWords] at *
  bv_omega

theorem Layout.taskStack_apart {i j : Fin numTasks} (h : i ≠ j) (ha : a ∈ L.taskStack i) :
    a ∉ L.taskStack j := by
  have hi := i.isLt
  have hj := j.isLt
  have hij : (i : Nat) ≠ j := fun heq => h (Fin.ext heq)
  simp only [Region.mem_iff, Layout.taskStack, numTasks, stackWords] at *
  bv_omega

theorem Layout.stack_apart {t t' : Option (Fin numTasks)} (h : t ≠ t') (ha : a ∈ L.stack t) :
    a ∉ L.stack t' := by
  have apart := L.apart
  simp only [List.pairwise_cons, List.mem_cons, List.not_mem_nil, or_false] at apart
  obtain ⟨hstacks, -⟩ := apart
  cases t with
  | none =>
    cases t' with
    | none => exact absurd rfl h
    | some j =>
      intro hj
      exact hstacks _ (.inl rfl) a (taskStack_subset hj) ha
  | some i =>
    cases t' with
    | none => exact hstacks _ (.inl rfl) a (taskStack_subset ha)
    | some j => exact taskStack_apart (fun hij => h (congrArg some hij)) ha

theorem Layout.not_bookkeeping_of_stack {t : Option (Fin numTasks)} (ha : a ∈ L.stack t) :
    ¬ L.bookkeeping a := by
  have apart := L.apart
  simp only [List.pairwise_cons, List.mem_cons, List.not_mem_nil, or_false] at apart
  obtain ⟨hstacks, hscratch, -⟩ := apart
  have hidx : ∀ p : Pointer, p ∈ (⟨p, 1⟩ : Region) := by
    intro p
    simp [Region.mem_iff]
  rintro (hsp | rfl)
  · cases t with
    | none => exact hscratch _ (.inl rfl) a ha hsp
    | some i => exact hstacks _ (.inr (.inl rfl)) a (taskStack_subset ha) hsp
  · cases t with
    | none => exact hscratch _ (.inr rfl) _ ha (hidx _)
    | some i => exact hstacks _ (.inr (.inr rfl)) _ (taskStack_subset ha) (hidx _)

theorem Layout.taskSp_bookkeeping (L : Layout) (i : Fin numTasks) :
    (L.taskSp + BitVec.ofNat 30 i - L.taskSp).toNat < numTasks := by
  have hi := i.isLt
  simp only [numTasks] at *
  bv_omega

theorem Layout.taskSp_ne_idx (L : Layout) (i : Fin numTasks) :
    L.taskSp + BitVec.ofNat 30 i ≠ L.currentTaskIdx := by
  have apart := L.apart
  simp only [List.pairwise_cons, List.mem_cons, List.not_mem_nil, or_false] at apart
  obtain ⟨-, -, hsp, -⟩ := apart
  intro heq
  refine hsp _ rfl _ (L.taskSp_bookkeeping i) ?_
  simp [Region.mem_iff, heq]

theorem Layout.taskSp_injective (L : Layout) {i j : Fin numTasks} (h : i ≠ j) :
    L.taskSp + BitVec.ofNat 30 i ≠ L.taskSp + BitVec.ofNat 30 j := by
  have hi := i.isLt
  have hj := j.isLt
  have hij : (i : Nat) ≠ j := fun heq => h (Fin.ext heq)
  simp only [numTasks] at *
  bv_omega

end Statics

/-! ## The switch -/

/-- The value of `current_task_idx` while this thread runs. -/
def index : Option (Fin numTasks) → Word
  | none => -1
  | some i => BitVec.ofNat 32 i

/-- The task after this one, and the first after `main`. -/
def successor : Option (Fin numTasks) → Fin numTasks
  | none => 0
  | some i => i + 1

theorem index_nonneg (t : Option (Fin numTasks)) : (0#32).sle (index t) = t.isSome := by
  cases t with
  | none => rfl
  | some i => revert i; decide

theorem index_successor (t : Option (Fin numTasks)) :
    (index t + 1).srem (BitVec.ofNat 32 numTasks) = index (some (successor t)) := by
  cases t with
  | none => rfl
  | some i => revert i; decide

theorem index_setWidth (i : Fin numTasks) :
    (index (some i)).setWidth 30 = BitVec.ofNat 30 i := by
  revert i
  decide

/-- A frame fits below the stack pointer, on the thread's own stack. -/
def Room (L : Layout) (t : Option (Fin numTasks)) (c : Context) : Prop :=
  16 + c.sp.toNat % 2 ≤ (c.sp - (L.stack t).base).toNat ∧
    (c.sp - (L.stack t).base).toNat ≤ (L.stack t).size

theorem Room.saveArea_mem {L : Layout} {t : Option (Fin numTasks)} {c : Context}
    (h : Room L t c) {a : Pointer} (ha : (a - saveArea c).toNat < 16) :
    a ∈ L.stack t ∧ (a - (L.stack t).base).toNat < (c.sp - (L.stack t).base).toNat := by
  obtain ⟨hlow, hhigh⟩ := h
  have hbound : (a - (L.stack t).base).toNat < (c.sp - (L.stack t).base).toNat := by
    rw [saveArea_eq] at ha
    bv_omega
  exact ⟨hbound.trans_le hhigh, hbound⟩

/-- What a `PendSV` taken while `t` runs does to the memory. -/
structure Switched (L : Layout) (t : Option (Fin numTasks)) (c : Context) (m m' : Memory) :
    Prop where
  current : m' L.currentTaskIdx = index (some (successor t))
  saved : ∀ i, t = some i → m' (L.taskSp + BitVec.ofNat 30 i) = address (saveArea c)
  kept : ∀ i : Fin numTasks, t ≠ some i →
    m' (L.taskSp + BitVec.ofNat 30 i) = m (L.taskSp + BitVec.ofNat 30 i)
  frame : restore m' (saveArea c) = c
  others : ∀ a, ¬ L.bookkeeping a → 16 ≤ (a - saveArea c).toNat → m' a = m a

theorem Room.restore_frame {L : Layout} {t : Option (Fin numTasks)} {c : Context}
    (h : Room L t c) {m m' : Memory}
    (hsame : ∀ a, ¬ L.bookkeeping a → m' a = save c m a) : restore m' (saveArea c) = c := by
  have hrest : restore m' (saveArea c) = restore (save c m) (saveArea c) := by
    apply restore_congr
    intro k hk
    refine hsame _ (Layout.not_bookkeeping_of_stack (h.saveArea_mem ?_).1)
    bv_omega
  exact hrest.trans (restore_save c m)

section Switch

variable {L : Layout} {t : Option (Fin numTasks)}

theorem Room.save_bookkeeping {c : Context} (h : Room L t c) {m : Memory} {a : Pointer}
    (ha : L.bookkeeping a) : save c m a = m a := by
  apply save_other
  apply Nat.le_of_not_lt
  intro hlt
  exact Layout.not_bookkeeping_of_stack (h.saveArea_mem hlt).1 ha

/-- `task_sp[current_task_idx] = current_sp` where there is a current task, then the next index. -/
def bookkept (L : Layout) (t : Option (Fin numTasks)) (p : Pointer) (m : Memory) : Memory :=
  (match t with
    | none => m
    | some i => m.store (L.taskSp + BitVec.ofNat 30 i) [address p]).store
      L.currentTaskIdx [index (some (successor t))]

theorem schedulerSwitchContext_eq {m : Memory} (h : m L.currentTaskIdx = index t)
    (p : Pointer) : schedulerSwitchContext L m p = (bookkept L t p m,
      pointer (bookkept L t p m (L.taskSp + BitVec.ofNat 30 (successor t)))) := by
  unfold schedulerSwitchContext bookkept
  simp only [h, index_nonneg, index_successor, index_setWidth]
  cases t with
  | none => rfl
  | some i => simp only [Option.isSome_some, if_true, index_setWidth]

theorem bookkept_other {p a : Pointer} {m : Memory} (ha : ¬ L.bookkeeping a) :
    bookkept L t p m a = m a := by
  have hidx : a ≠ L.currentTaskIdx := fun h => ha (.inr h)
  unfold bookkept
  rw [Memory.store_single_ne hidx]
  cases t with
  | none => rfl
  | some i =>
    refine Memory.store_single_ne ?_
    rintro rfl
    exact ha (.inl (L.taskSp_bookkeeping i))

theorem bookkept_taskSp {p : Pointer} {m : Memory} (i : Fin numTasks) :
    bookkept L t p m (L.taskSp + BitVec.ofNat 30 i) =
      if t = some i then address p else m (L.taskSp + BitVec.ofNat 30 i) := by
  unfold bookkept
  rw [Memory.store_single_ne (L.taskSp_ne_idx i)]
  cases t with
  | none => rfl
  | some j =>
    by_cases hij : j = i
    · subst hij
      simp [Memory.store_single_self]
    · have hne : ¬ some j = some i := fun h => hij (Option.some.inj h)
      rw [if_neg hne]
      exact Memory.store_single_ne (L.taskSp_injective (Ne.symm hij))

theorem Room.switched {c : Context} (h : Room L t c) (m : Memory) :
    Switched L t c m (bookkept L t (saveArea c) (save c m)) where
  current := Memory.store_single_self _ _ _
  saved i hi := by
    rw [bookkept_taskSp, if_pos hi]
  kept i hi := by
    rw [bookkept_taskSp, if_neg hi]
    exact h.save_bookkeeping (.inl (L.taskSp_bookkeeping i))
  frame := h.restore_frame fun a ha => bookkept_other ha
  others a ha hfar := (bookkept_other ha).trans (save_other hfar)

/-- Exception entry, `PendSV_Handler` and exception return one after the other. -/
theorem pendsv_eq {c : Context} {m : Memory} (hidx : m L.currentTaskIdx = index t)
    (hroom : Room L t c) :
    let m' := bookkept L t (saveArea c) (save c m)
    let p := pointer (m' (L.taskSp + BitVec.ofNat 30 (successor t)))
    pendSVHandler L c.r (exceptionEntry c m).1 (exceptionEntry c m).2 =
      (loadCalleeSaved c.r p m', p + 8, m') := by
  have hsaved : save c m L.currentTaskIdx = index t :=
    (hroom.save_bookkeeping (.inr rfl)).trans hidx
  have hcall : schedulerSwitchContext L ((exceptionEntry c m).2.store
      ((exceptionEntry c m).1 - 8) (calleeSaved c.r)) ((exceptionEntry c m).1 - 8) = _ :=
    schedulerSwitchContext_eq hsaved (saveArea c)
  simp only [pendSVHandler, hcall]

theorem pendsv_spec {exec : Context → Memory → Context × Memory} {s s' : Machine}
    (hidx : s.mem L.currentTaskIdx = index t) (hroom : Room L t s.cpu)
    (hstep : (system L exec).step s .pendsv = some s') :
    Switched L t s.cpu s.mem s'.mem ∧
      s'.cpu = restore s'.mem (pointer (s'.mem (L.taskSp + BitVec.ofNat 30 (successor t)))) := by
  simp only [system, pendsv_eq hidx hroom] at hstep
  split at hstep
  case isFalse => cases hstep
  case isTrue =>
    cases hstep
    exact ⟨hroom.switched s.mem,
      (exceptionReturn_eq _ _ _).trans (exceptionReturn_eq _ _ _).symm⟩

end Switch

end RtosXrce.Arm
