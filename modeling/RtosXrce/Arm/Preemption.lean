import Mathlib
import RtosXrce.Arm.ContextSwitch
import RtosXrce.Library.Processors

/-!
# Preemption leaves the tasks' registers alone

The two tasks and `main` share one set of registers. `Represents` relates the machine to one in
which each has registers of its own and a switch touches none of them; every run keeps it, as
long as a thread stays on its own stack with room for a frame when it is preempted.
-/

namespace RtosXrce.Arm

open Library

variable {L : Layout} {exec : Context → Memory → Context × Memory}

theorem index_injective {t t' : Option (Fin numTasks)} (h : index t = index t') : t = t' := by
  cases t with
  | none =>
    cases t' with
    | none => rfl
    | some j => revert j; decide
  | some i =>
    cases t' with
    | none => revert i; decide
    | some j => revert i j; decide

/-- The context a switch to task `i` would restore. -/
def parkedContext (L : Layout) (m : Memory) (i : Fin numTasks) : Context :=
  restore m (pointer (m (L.taskSp + BitVec.ofNat 30 i)))

/-- `task_sp[i]` points to a frame on the stack of task `i`. -/
def FrameInside (L : Layout) (m : Memory) (i : Fin numTasks) : Prop :=
  (pointer (m (L.taskSp + BitVec.ofNat 30 i)) - (L.taskStack i).base).toNat + frameWords ≤
    stackWords

theorem FrameInside.mem {m : Memory} {i : Fin numTasks} (h : FrameInside L m i) {k : Nat}
    (hk : k < 16) :
    pointer (m (L.taskSp + BitVec.ofNat 30 i)) + BitVec.ofNat 30 k ∈ L.taskStack i := by
  simp only [Region.mem_iff, FrameInside, Layout.taskStack, stackWords, frameWords] at *
  bv_omega

/-- A store that leaves the stack of task `i` and `task_sp[i]` alone leaves its context alone. -/
theorem FrameInside.congr {m m' : Memory} {i : Fin numTasks} (h : FrameInside L m i)
    (hsp : m' (L.taskSp + BitVec.ofNat 30 i) = m (L.taskSp + BitVec.ofNat 30 i))
    (hstack : ∀ a, a ∈ L.taskStack i → m' a = m a) :
    FrameInside L m' i ∧ parkedContext L m' i = parkedContext L m i := by
  unfold FrameInside parkedContext
  rw [hsp]
  refine ⟨h, ?_⟩
  apply restore_congr
  intro k hk
  exact hstack _ (h.mem hk)

/-- The steps of threads that stay on their stacks. -/
def Safe (L : Layout) (exec : Context → Memory → Context × Memory) (s : Machine) : Act → Prop
  | .instr => ∀ t, s.mem L.currentTaskIdx = index t → ∀ a,
      L.bookkeeping a ∨ (∃ i, t ≠ some i ∧ a ∈ L.taskStack i) →
      (exec s.cpu s.mem).2 a = s.mem a
  | .request => True
  | .pendsv => ∀ t, s.mem L.currentTaskIdx = index t → Room L t s.cpu

/-- Threads with registers of their own. -/
abbrev Threads := Processors (Option (Fin numTasks)) Context Memory

structure Represents (L : Layout) (s : Machine) (v : Threads) : Prop where
  store : v.store = s.mem
  current : s.mem L.currentTaskIdx = index v.running
  live : v.context v.running = s.cpu
  inside : ∀ i, v.running ≠ some i → FrameInside L s.mem i
  parked : ∀ i, v.running ≠ some i → v.context (some i) = parkedContext L s.mem i

/-- A hand-over changes only words below the stack pointer of the thread that loses the turn,
and the kernel's own. -/
def SwitchWrites (L : Layout) (v : Threads) (m : Memory) : Prop :=
  ∀ a, m a ≠ v.store a → L.bookkeeping a ∨ (a ∈ L.stack v.running ∧
    (a - (L.stack v.running).base).toNat <
      ((v.context v.running).sp - (L.stack v.running).base).toNat)

theorem Represents.instr {s : Machine} {v : Threads} (h : Represents L s v)
    (hok : Safe L exec s .instr) :
    Represents L { s with cpu := (exec s.cpu s.mem).1, mem := (exec s.cpu s.mem).2 }
      (v.execute exec) := by
  have hkeep := hok v.running h.current
  have hothers : ∀ i, v.running ≠ some i → FrameInside L (exec s.cpu s.mem).2 i ∧
      parkedContext L (exec s.cpu s.mem).2 i = parkedContext L s.mem i := by
    intro i hi
    apply (h.inside i hi).congr
    · exact hkeep _ (.inl (.inl (L.taskSp_bookkeeping i)))
    · intro a ha
      exact hkeep a (.inr ⟨i, hi, ha⟩)
  constructor
  · simp [Processors.execute, h.live, h.store]
  · exact (hkeep _ (.inl (.inr rfl))).trans h.current
  · simp [Processors.execute, h.live, h.store]
  · intro i hi
    exact (hothers i hi).1
  · intro i hi
    refine Eq.trans ?_ ((h.parked i hi).trans (hothers i hi).2.symm)
    exact Function.update_of_ne (Ne.symm hi) _ _

theorem Room.frameInside {i : Fin numTasks} {c : Context} (h : Room L (some i) c) :
    (saveArea c - (L.taskStack i).base).toNat + frameWords ≤ stackWords := by
  obtain ⟨hlow, hhigh⟩ := h
  rw [saveArea_eq]
  simp only [Layout.stack, Layout.taskStack, stackWords, frameWords] at *
  bv_omega

theorem Switched.writes {t : Option (Fin numTasks)} {c : Context} {m m' : Memory}
    (h : Switched L t c m m') (hroom : Room L t c) {a : Pointer} (ha : m' a ≠ m a) :
    L.bookkeeping a ∨ (a ∈ L.stack t ∧
      (a - (L.stack t).base).toNat < (c.sp - (L.stack t).base).toNat) := by
  by_cases hbook : L.bookkeeping a
  · exact .inl hbook
  · refine .inr (hroom.saveArea_mem ?_)
    apply Nat.lt_of_not_le
    intro hfar
    exact ha (h.others a hbook hfar)

theorem Switched.taskStack {t : Option (Fin numTasks)} {c : Context} {m m' : Memory}
    (h : Switched L t c m m') (hroom : Room L t c) {i : Fin numTasks} (hi : t ≠ some i)
    {a : Pointer} (ha : a ∈ L.taskStack i) : m' a = m a := by
  by_contra hne
  rcases h.writes hroom hne with hbook | ⟨hmem, -⟩
  · exact Layout.not_bookkeeping_of_stack (t := some i) ha hbook
  · exact Layout.stack_apart hi hmem ha

theorem Represents.pendsv {s s' : Machine} {v : Threads} (h : Represents L s v)
    (hok : Safe L exec s .pendsv) (hstep : (system L exec).step s .pendsv = some s') :
    SwitchWrites L v s'.mem ∧
      Represents L s' (v.handOver (fun t => some (successor t)) s'.mem) := by
  have hroom := hok v.running h.current
  obtain ⟨hswitched, hcpu⟩ := pendsv_spec h.current hroom hstep
  -- once the outgoing context is saved, every task has a frame
  have hall : ∀ i, FrameInside L s'.mem i ∧ v.context (some i) = parkedContext L s'.mem i := by
    intro i
    by_cases hi : v.running = some i
    · have hsp := hswitched.saved i hi
      have hlive := h.live
      rw [hi] at hroom hlive
      unfold FrameInside parkedContext
      rw [hsp, pointer_address, hswitched.frame]
      exact ⟨hroom.frameInside, hlive⟩
    · obtain ⟨hinside, hparked⟩ := (h.inside i hi).congr (hswitched.kept i hi)
        fun a ha => hswitched.taskStack hroom hi ha
      exact ⟨hinside, (h.parked i hi).trans hparked.symm⟩
  constructor
  · intro a ha
    rw [h.live]
    exact hswitched.writes hroom (h.store ▸ ha)
  · exact {
      store := rfl
      current := hswitched.current
      live := (hall _).2.trans hcpu.symm
      inside := fun i _ => (hall i).1
      parked := fun i _ => (hall i).2 }

/-- Every step of the machine is a step of the threads, or none. -/
theorem Represents.step {s s' : Machine} {v : Threads} {a : Act} (h : Represents L s v)
    (hok : Safe L exec s a) (hstep : (system L exec).step s a = some s') :
    ∃ v', (Processors.system exec fun t => some (successor t)).Reach
      (Processors.HandsOver (SwitchWrites L)) v v' ∧ Represents L s' v' := by
  cases a with
  | instr =>
    cases hstep
    exact ⟨_, System.Reach.refl.tail (a := .execute) trivial rfl, h.instr hok⟩
  | request =>
    cases hstep
    exact ⟨v, .refl, h.store, h.current, h.live, h.inside, h.parked⟩
  | pendsv =>
    obtain ⟨hwrites, hrep⟩ := h.pendsv hok hstep
    exact ⟨_, System.Reach.refl.tail (a := .handOver s'.mem) hwrites rfl, hrep⟩

/-! ## The start -/

/-- The registers a task starts with: execution begins at `entry`, on an empty stack, and a
return from `entry` goes to `task_return_trap`. -/
def initialContext (L : Layout) (taskReturnTrap entry : Word) (i : Fin numTasks) : Context where
  r _ := 0
  sp := (L.taskStack i).top
  lr := taskReturnTrap
  pc := entry.extractLsb' 1 31
  psr := 0x4000

/-- The upper half of the frame `task_stack_init` builds: what the hardware loads. -/
def initialHardwareFrame (taskReturnTrap entry : Word) : List Word :=
  [0, 0, 0, 0, 0, taskReturnTrap, entry, 0x01000000]

def initialFrame (taskReturnTrap entry : Word) : List Word :=
  List.replicate 8 0 ++ initialHardwareFrame taskReturnTrap entry

def initialSp (L : Layout) (i : Fin numTasks) : Pointer :=
  (L.taskStack i).top - BitVec.ofNat 30 frameWords

theorem initialSp_mem {i : Fin numTasks} {a : Pointer} (h : (a - initialSp L i).toNat < 16) :
    a ∈ L.taskStack i := by
  simp only [initialSp, Region.top, Region.mem_iff, Layout.taskStack, stackWords,
    frameWords] at *
  bv_omega

theorem taskStackInit_other (trap : Word) (m : Memory) (i : Fin numTasks) (entry : Word)
    {a : Pointer} (hstack : a ∉ L.taskStack i) (hsp : a ≠ L.taskSp + BitVec.ofNat 30 i) :
    taskStackInit L trap m i entry a = m a := by
  unfold taskStackInit
  refine (Memory.store_single_ne hsp).trans ?_
  apply Memory.store_of_le
  apply Nat.le_of_not_lt
  intro hlt
  exact hstack (initialSp_mem hlt)

theorem taskStackInit_sp (trap : Word) (m : Memory) (i : Fin numTasks) (entry : Word) :
    taskStackInit L trap m i entry (L.taskSp + BitVec.ofNat 30 i) = address (initialSp L i) :=
  Memory.store_single_self _ _ _

theorem taskStackInit_word (trap : Word) (m : Memory) (i : Fin numTasks) (entry : Word)
    {k : Nat} (hk : k < 16) : taskStackInit L trap m i entry (initialSp L i + BitVec.ofNat 30 k) =
      (initialFrame trap entry).get ⟨k, hk⟩ := by
  have hmem : initialSp L i + BitVec.ofNat 30 k ∈ L.stack (some i) := by
    apply initialSp_mem
    bv_omega
  have hne : initialSp L i + BitVec.ofNat 30 k ≠ L.taskSp + BitVec.ofNat 30 i := by
    intro heq
    exact Layout.not_bookkeeping_of_stack hmem (.inl (heq ▸ L.taskSp_bookkeeping i))
  refine (Memory.store_single_ne hne).trans ?_
  exact Memory.store_get (by omega) hk

theorem taskStackInit_words (trap : Word) (m : Memory) (i : Fin numTasks) (entry : Word) :
    restore (taskStackInit L trap m i entry) (initialSp L i) =
      fromWords (initialSp L i) (fun _ => 0)
        (fun k => (initialHardwareFrame trap entry).getD k 0) := by
  apply restore_eq
  · intro k hk
    rw [taskStackInit_word trap m i entry (by omega)]
    have hzero : k < (List.replicate 8 (0 : Word)).length := by simpa using hk
    exact (List.getElem_append_left hzero).trans (List.getElem_replicate hzero)
  · intro k hk
    have hsum : initialSp L i + 8 + BitVec.ofNat 30 k =
        initialSp L i + BitVec.ofNat 30 (8 + k) := by bv_omega
    rw [hsum, taskStackInit_word trap m i entry (by omega)]
    have hpast : (List.replicate 8 (0 : Word)).length ≤ 8 + k := by simp
    refine (List.getElem_append_right hpast).trans ?_
    rw [List.getD_eq_getElem _ 0 hk]
    congr 1
    simp

theorem taskStackInit_context (trap : Word) (m : Memory) (i : Fin numTasks) (entry : Word) :
    restore (taskStackInit L trap m i entry) (initialSp L i) =
      initialContext L trap entry i := by
  rw [taskStackInit_words]
  apply Context.ext
  · funext r
    fin_cases r <;> rfl
  · have halign : (BitVec.ofBool ((0x01000000 : Word).getLsbD 9)).setWidth 30 = 0#30 := by decide
    change initialSp L i + 8 + 8 ||| (BitVec.ofBool ((0x01000000 : Word).getLsbD 9)).setWidth 30 =
      (L.taskStack i).top
    rw [halign, BitVec.or_zero, initialSp, frameWords]
    bv_omega
  · rfl
  · rfl
  · have hthumb : (0x01000000 : Word).extractLsb' 10 22 = 0x4000 := by decide
    exact hthumb

theorem taskStackInit_frame (trap : Word) (m : Memory) (i : Fin numTasks) (entry : Word) :
    FrameInside L (taskStackInit L trap m i entry) i ∧
      parkedContext L (taskStackInit L trap m i entry) i = initialContext L trap entry i := by
  unfold FrameInside parkedContext
  rw [taskStackInit_sp, pointer_address, taskStackInit_context]
  refine ⟨?_, rfl⟩
  simp only [initialSp, Region.top, Layout.taskStack, stackWords, frameWords]
  bv_omega

/-- Where the threads start: `main` runs, and neither task has executed an instruction. -/
def start (L : Layout) (taskReturnTrap : Word) (entry : Fin numTasks → Word) (ram : Memory)
    (main : Context) : Threads where
  running := none
  context
    | none => primePspForFirstSwitch L main
    | some i => initialContext L taskReturnTrap (entry i) i
  store := bootMemory L taskReturnTrap entry ram

theorem currentTaskIdx_boot (trap : Word) (entry : Fin numTasks → Word) (ram : Memory) :
    bootMemory L trap entry ram L.currentTaskIdx = index none := by
  have hother : ∀ (m : Memory) (i : Fin numTasks) (e : Word),
      taskStackInit L trap m i e L.currentTaskIdx = m L.currentTaskIdx := by
    intro m i e
    apply taskStackInit_other
    · intro hmem
      exact Layout.not_bookkeeping_of_stack (t := some i) hmem (.inr rfl)
    · exact Ne.symm (L.taskSp_ne_idx i)
  exact (hother _ 1 _).trans ((hother _ 0 _).trans (Memory.store_single_self _ _ _))

/-- Preparing one task leaves the frame of the other alone. -/
theorem FrameInside.taskStackInit {m : Memory} {i j : Fin numTasks} (h : FrameInside L m i)
    (hij : i ≠ j) (trap entry : Word) :
    FrameInside L (taskStackInit L trap m j entry) i ∧
      parkedContext L (taskStackInit L trap m j entry) i = parkedContext L m i := by
  apply h.congr
  · apply taskStackInit_other
    · intro hmem
      exact Layout.not_bookkeeping_of_stack (t := some j) hmem (.inl (L.taskSp_bookkeeping i))
    · exact L.taskSp_injective hij
  · intro a ha
    apply taskStackInit_other
    · exact Layout.taskStack_apart hij ha
    · rintro rfl
      exact Layout.not_bookkeeping_of_stack (t := some i) ha (.inl (L.taskSp_bookkeeping j))

theorem boot_frames (trap : Word) (entry : Fin numTasks → Word) (ram : Memory)
    (i : Fin numTasks) : FrameInside L (bootMemory L trap entry ram) i ∧
      parkedContext L (bootMemory L trap entry ram) i =
        initialContext L trap (entry i) i := by
  have hfirst := taskStackInit_frame (L := L) trap (ram.store L.currentTaskIdx [-1]) 0 (entry 0)
  fin_cases i
  · obtain ⟨hinside, hparked⟩ := hfirst.1.taskStackInit (j := 1) (by decide) trap (entry 1)
    exact ⟨hinside, hparked.trans hfirst.2⟩
  · exact taskStackInit_frame trap _ 1 (entry 1)

theorem represents_boot (trap : Word) (entry : Fin numTasks → Word) (ram : Memory)
    (main : Context) : Represents L (boot L trap entry ram main) (start L trap entry ram main) where
  store := rfl
  current := currentTaskIdx_boot trap entry ram
  live := rfl
  inside i _ := (boot_frames trap entry ram i).1
  parked i _ := (boot_frames trap entry ram i).2.symm

/-- Every run of the port is a run of threads with registers of their own: whatever the
instructions are, and whenever the ticks fall. -/
theorem preemption_transparent {trap : Word} {entry : Fin numTasks → Word} {ram : Memory}
    {main : Context} {s : Machine}
    (h : (system L exec).Reach (Safe L exec) (boot L trap entry ram main) s) :
    ∃ v, (Processors.system exec fun t => some (successor t)).Reach
      (Processors.HandsOver (SwitchWrites L)) (start L trap entry ram main) v ∧
      Represents L s v := by
  apply h.simulate (represents_boot trap entry ram main)
  intro s a s' v hrep hok hstep
  exact hrep.step hok hstep

/-- One placement of the statics in the RAM at 0x20000000. -/
def sampleLayout : Layout where
  taskStacks := 0x8000000
  bootScratchStack := 0x8000200
  taskSp := 0x8000240
  currentTaskIdx := 0x8000242
  apart := by
    simp only [List.pairwise_cons, List.mem_cons, List.not_mem_nil, or_false, forall_eq_or_imp,
      forall_eq, Region.mem_iff, numTasks, stackWords, bootScratchWords]
    refine ⟨⟨?_, ?_, ?_⟩, ⟨?_, ?_⟩, ?_, by simp, .nil⟩ <;> intro a <;> bv_omega

/-- An instruction that adds the word at address 0 to `r4`. -/
def addWord (c : Context) (m : Memory) : Context × Memory :=
  ({ c with r := Function.update c.r 4 (c.r 4 + m 0) }, m)

def sampleBoot : Machine :=
  boot sampleLayout 0x08000101 (fun i => if i = 0 then 0x08000201 else 0x08000301) (fun _ => 7)
    ⟨fun _ => 0, 0, 0, 0, 0x4000⟩

instance (L : Layout) (t : Option (Fin numTasks)) (c : Context) : Decidable (Room L t c) :=
  inferInstanceAs (Decidable (_ ∧ _))

instance (s : Machine) (a : Act) : Decidable (Safe sampleLayout addWord s a) :=
  match a with
  | .instr => .isTrue fun _ _ _ _ => rfl
  | .request => .isTrue trivial
  | .pendsv => inferInstanceAs (Decidable (∀ t : Option (Fin numTasks),
      s.mem sampleLayout.currentTaskIdx = index t → Room sampleLayout t s.cpu))

/-- The first task executes two instructions, the second one, and the first has its turn again. -/
def sampleRun : Option Machine :=
  (system sampleLayout addWord).runGuarded (Safe sampleLayout addWord) sampleBoot
    [.request, .pendsv, .instr, .instr, .request, .pendsv, .instr, .request, .pendsv]

theorem preemption_transparent_sample : ∃ s, sampleRun = some s ∧ s.cpu.r 4 = 14 ∧
    ∃ v, (Processors.system addWord fun t => some (successor t)).Reach
      (Processors.HandsOver (SwitchWrites sampleLayout)) (start sampleLayout 0x08000101
        (fun i => if i = 0 then 0x08000201 else 0x08000301) (fun _ => 7)
        ⟨fun _ => 0, 0, 0, 0, 0x4000⟩) v ∧ Represents sampleLayout s v := by
  have hrun : sampleRun.any (fun s => s.cpu.r 4 = 14) = true := by decide +kernel
  obtain ⟨s, hs, hr⟩ := System.exists_of_runGuarded hrun
  exact ⟨s, hs, hr, preemption_transparent (System.reach_of_runGuarded hs)⟩

/-! ## A task alone -/

section TaskAlone

variable {c : Context} {m : Memory}

/-- The words that matter to task `i` are not the kernel's, and on a stack only at or above its own
stack pointer. -/
structure PrivateTo (L : Layout) (i : Fin numTasks) (T : Territory exec c m) : Prop where
  bookkeeping : ∀ n a, T.owns n a → ¬ L.bookkeeping a
  stack : ∀ n a t, T.owns n a → a ∈ L.stack t → t = some i ∧
    ((alone exec n c m).1.sp - (L.stack t).base).toNat ≤ (a - (L.stack t).base).toNat

/-- The registers of task `i`, in the processor or in its frame. -/
def contextOf (L : Layout) (s : Machine) (i : Fin numTasks) : Context :=
  if s.mem L.currentTaskIdx = index (some i) then s.cpu else parkedContext L s.mem i

/-- The instructions of the others change no word that matters to task `i`. -/
def Spares (L : Layout) (i : Fin numTasks) (T : Territory exec c m) (s : Machine) (n : Nat) :
    Act → Prop
  | .instr => s.mem L.currentTaskIdx ≠ index (some i) →
      ∀ a, T.owns n a → (exec s.cpu s.mem).2 a = s.mem a
  | _ => True

/-- How many instructions task `i` has executed. -/
def instructions (L : Layout) (i : Fin numTasks) (s : Machine) : Act → Nat → Nat
  | .instr, n => if s.mem L.currentTaskIdx = index (some i) then n + 1 else n
  | _, n => n

theorem Represents.running_iff {s : Machine} {v : Threads} (h : Represents L s v)
    (i : Fin numTasks) : s.mem L.currentTaskIdx = index (some i) ↔ v.running = some i := by
  rw [h.current]
  exact ⟨index_injective, congrArg index⟩

theorem Represents.contextOf {s : Machine} {v : Threads} (h : Represents L s v)
    (i : Fin numTasks) : contextOf L s i = v.context (some i) := by
  unfold Arm.contextOf
  by_cases hi : v.running = some i
  · rw [if_pos ((h.running_iff i).mpr hi), ← hi, h.live]
  · rw [if_neg fun heq => hi ((h.running_iff i).mp heq), h.parked i hi]

theorem PrivateTo.spares {T : Territory exec c m} {i : Fin numTasks} (hT : PrivateTo L i T)
    {v : Threads} {n : Nat} (hv : T.Undisturbed (some i) v n) {m' : Memory}
    (h : SwitchWrites L v m') : T.Spares (some i) v n (.handOver m') := by
  intro a ha
  by_contra hne
  rcases h a hne with hbook | ⟨hmem, hlt⟩
  · exact hT.bookkeeping n a ha hbook
  · obtain ⟨hrun, hle⟩ := hT.stack n a _ ha hmem
    rw [← hv.1] at hle
    rw [hrun] at hlt hle
    omega

theorem Represents.spares {s : Machine} {v : Threads} (h : Represents L s v)
    {i : Fin numTasks} {T : Territory exec c m} {n : Nat} (hok : Spares L i T s n .instr) :
    T.Spares (some i) v n .execute := by
  intro hne a ha
  rw [h.live, h.store]
  apply hok
  · intro heq
    exact hne ((h.running_iff i).mp heq).symm
  · exact ha

theorem Represents.count {s : Machine} {v : Threads} (h : Represents L s v) (i : Fin numTasks)
    (n : Nat) : instructions L i s .instr n = v.count (some i) .execute n := by
  simp only [instructions, Processors.count, h.running_iff]

/-- The simulation of `Represents`, with the instructions of task `i` counted on both sides. -/
theorem exists_threads {trap : Word} {entry : Fin numTasks → Word} {ram : Memory}
    {main : Context} {i : Fin numTasks} {T : Territory exec c m} (hT : PrivateTo L i T)
    {s : Machine × Nat}
    (h : ((system L exec).watch (instructions L i)).Reach
      (fun s a => Safe L exec s.1 a ∧ Spares L i T s.1 s.2 a) (boot L trap entry ram main, 0) s) :
    ∃ v, ((Processors.system exec fun t => some (successor t)).watch
      (Processors.count (some i))).Reach
        (fun p a => T.Undisturbed (some i) p.1 p.2 → T.Spares (some i) p.1 p.2 a)
        (start L trap entry ram main, 0) v ∧ Represents L s.1 v.1 ∧ s.2 = v.2 := by
  refine h.simulate (R := fun (s : Machine × Nat) (v : Threads × Nat) =>
    Represents L s.1 v.1 ∧ s.2 = v.2)
    ⟨represents_boot trap entry ram main, rfl⟩ ?_
  rintro ⟨s, n⟩ a ⟨s', n'⟩ ⟨v, k⟩ ⟨hrep, hn⟩ ⟨hsafe, hspares⟩ hstep
  obtain ⟨hmove, hnote⟩ := System.watch_step hstep
  change n = k at hn
  change n' = instructions L i s a n at hnote
  subst hn hnote
  cases a with
  | instr =>
    cases hmove
    exact ⟨(v.execute exec, v.count (some i) .execute n),
      System.Reach.refl.tail (a := .execute) (fun _ => hrep.spares hspares) rfl,
      hrep.instr hsafe, hrep.count i n⟩
  | request =>
    cases hmove
    exact ⟨(v, n), .refl, ⟨hrep.store, hrep.current, hrep.live, hrep.inside, hrep.parked⟩, rfl⟩
  | pendsv =>
    obtain ⟨hwrites, hrep'⟩ := hrep.pendsv hsafe hmove
    exact ⟨(v.handOver (fun t => some (successor t)) s'.mem, n),
      System.Reach.refl.tail (a := .handOver s'.mem) (fun hv => hT.spares hv hwrites) rfl,
      hrep', rfl⟩

end TaskAlone

/-- A task is at every moment where the instructions it has executed would have brought it without
any preemption, in its registers and in every word that matters to it. -/
theorem preemption_unnoticed {trap : Word} {entry : Fin numTasks → Word} {ram : Memory}
    {main : Context} {i : Fin numTasks}
    {T : Territory exec (initialContext L trap (entry i) i) (bootMemory L trap entry ram)}
    (hT : PrivateTo L i T) {s : Machine × Nat}
    (h : ((system L exec).watch (instructions L i)).Reach
      (fun s a => Safe L exec s.1 a ∧ Spares L i T s.1 s.2 a)
      (boot L trap entry ram main, 0) s) :
    let solo := alone exec s.2 (initialContext L trap (entry i) i) (bootMemory L trap entry ram)
    contextOf L s.1 i = solo.1 ∧ ∀ a, T.owns s.2 a → s.1.mem a = solo.2 a := by
  obtain ⟨v, hreach, hrep, hn⟩ := exists_threads hT h
  obtain ⟨hcontext, hstore⟩ := T.undisturbed (i := some i) rfl rfl hreach
  rw [hrep.contextOf, hn, ← hrep.store]
  exact ⟨hcontext, hstore⟩

/-! ### Tasks that use their stacks -/

/-- A processor that pushes and pops by turns: at an even halfword it puts `r4` on the stack, at an
odd one it takes a word back and adds one. -/
def pushPop (c : Context) (m : Memory) : Context × Memory :=
  if c.pc.toNat % 2 = 0 then
    ({ c with sp := c.sp - 1, pc := c.pc + 1 }, m.store (c.sp - 1) [c.r 4])
  else ({ c with r := Function.update c.r 4 (m c.sp + 1), sp := c.sp + 1, pc := c.pc + 1 }, m)

theorem pushPop_alone {c : Context} (hc : c.pc.toNat % 2 = 0) (m : Memory) (n : Nat) :
    (alone pushPop n c m).1.sp = c.sp - BitVec.ofNat 30 (n % 2) ∧
      (alone pushPop n c m).1.pc.toNat % 2 = n % 2 := by
  have hflip : ∀ pc : BitVec 31, (pc + 1).toNat % 2 = (pc.toNat + 1) % 2 := by
    intro pc
    bv_omega
  induction n with
  | zero => simpa [alone] using hc
  | succ n ih =>
    obtain ⟨hsp, hpc⟩ := ih
    rw [alone_succ]
    obtain hn | hn := Nat.mod_two_eq_zero_or_one n
    · have hsucc : (n + 1) % 2 = 1 := by omega
      have hpush := hpc.trans hn
      simp only [pushPop, if_pos hpush, hflip, hsp, hn, hsucc]
      constructor
      · bv_omega
      · omega
    · have hsucc : (n + 1) % 2 = 0 := by omega
      have hpop : ¬ (alone pushPop n c m).1.pc.toNat % 2 = 0 := by omega
      simp only [pushPop, if_neg hpop, hflip, hsp, hn, hsucc]
      constructor
      · bv_omega
      · omega

/-- The word at the stack pointer matters between a push and the pop. -/
def pushPopTerritory {c : Context} (hc : c.pc.toNat % 2 = 0) (m : Memory) :
    Territory pushPop c m where
  owns n a := n % 2 = 1 ∧ a = c.sp - 1
  reads n m' h := by
    obtain ⟨hsp, hpc⟩ := pushPop_alone hc m n
    rw [alone_succ]
    obtain hn | hn := Nat.mod_two_eq_zero_or_one n
    · simp only [pushPop, if_pos (hpc.trans hn), hsp, hn]
      refine ⟨trivial, ?_⟩
      rintro a ⟨-, rfl⟩
      have hword : c.sp - BitVec.ofNat 30 0 - 1 = c.sp - 1 := by bv_omega
      rw [hword, Memory.store_single_self, Memory.store_single_self]
    · have hpop : ¬ (alone pushPop n c m).1.pc.toNat % 2 = 0 := by omega
      have hword : m' (c.sp - 1#30) = (alone pushPop n c m).2 (c.sp - 1#30) := h _ ⟨hn, rfl⟩
      simp only [pushPop, if_neg hpop, hsp, hn, hword]
      refine ⟨trivial, ?_⟩
      rintro a ⟨hodd, -⟩
      omega

theorem pushPopTerritory_mem {c : Context} (hc : c.pc.toNat % 2 = 0) (m : Memory)
    {i : Fin numTasks} (hsp : c.sp = (L.taskStack i).top) {n : Nat} {a : Pointer}
    (ha : (pushPopTerritory hc m).owns n a) : a ∈ L.stack (some i) := by
  obtain ⟨-, rfl⟩ := ha
  simp only [hsp, Region.top, Region.mem_iff, Layout.stack, Layout.taskStack, stackWords]
  bv_omega

theorem pushPopTerritory_privateTo {c : Context} (hc : c.pc.toNat % 2 = 0) (m : Memory)
    {i : Fin numTasks} (hsp : c.sp = (L.taskStack i).top) :
    PrivateTo L i (pushPopTerritory hc m) := by
  constructor
  · intro n a ha
    exact Layout.not_bookkeeping_of_stack (pushPopTerritory_mem hc m hsp ha)
  · intro n a t ha hstack
    constructor
    · by_contra hne
      exact Layout.stack_apart hne hstack (pushPopTerritory_mem hc m hsp ha)
    · obtain ⟨hn, rfl⟩ := ha
      rw [(pushPop_alone hc m n).1, hn]
      rfl

/-- The running thread has a word below its stack pointer, and room for a frame when it is
preempted. -/
def StaysOnStack (L : Layout) (s : Machine) : Act → Prop
  | .instr => ∃ t, s.mem L.currentTaskIdx = index t ∧ s.cpu.sp - 1 ∈ L.stack t
  | .request => True
  | .pendsv => ∃ t, s.mem L.currentTaskIdx = index t ∧ Room L t s.cpu

theorem pushPop_other {c : Context} {m : Memory} {t : Option (Fin numTasks)}
    (h : c.sp - 1 ∈ L.stack t) {a : Pointer} (ha : a ∉ L.stack t) : (pushPop c m).2 a = m a := by
  unfold pushPop
  split
  · apply Memory.store_single_ne
    rintro rfl
    exact ha h
  · rfl

theorem StaysOnStack.safe {s : Machine} {a : Act} (h : StaysOnStack L s a) :
    Safe L pushPop s a := by
  cases a with
  | instr =>
    obtain ⟨t, hidx, hmem⟩ := h
    intro t' hidx' a ha
    obtain rfl := index_injective (hidx.symm.trans hidx')
    apply pushPop_other hmem
    intro hstack
    rcases ha with hbook | ⟨i, hne, hother⟩
    · exact Layout.not_bookkeeping_of_stack hstack hbook
    · exact Layout.stack_apart hne hstack hother
  | request => trivial
  | pendsv =>
    obtain ⟨t, hidx, hroom⟩ := h
    intro t' hidx'
    rwa [index_injective (hidx'.symm.trans hidx)]

theorem StaysOnStack.spares {s : Machine} {a : Act} (h : StaysOnStack L s a) {c : Context}
    {m : Memory} {i : Fin numTasks} {T : Territory pushPop c m}
    (hT : ∀ n a, T.owns n a → a ∈ L.stack (some i)) (n : Nat) : Spares L i T s n a := by
  cases a with
  | instr =>
    obtain ⟨t, hidx, hmem⟩ := h
    intro hne a ha
    apply pushPop_other hmem
    apply Layout.stack_apart _ (hT n a ha)
    rintro rfl
    exact hne hidx
  | request => trivial
  | pendsv => trivial

instance (L : Layout) (s : Machine) (a : Act) : Decidable (StaysOnStack L s a) :=
  match a with
  | .instr => inferInstanceAs (Decidable (∃ t : Option (Fin numTasks),
      s.mem L.currentTaskIdx = index t ∧
        (s.cpu.sp - 1 - (L.stack t).base).toNat < (L.stack t).size))
  | .request => .isTrue trivial
  | .pendsv => inferInstanceAs (Decidable (∃ t : Option (Fin numTasks),
      s.mem L.currentTaskIdx = index t ∧ Room L t s.cpu))

/-- The first task is preempted with a word on its stack, the second one pushes and pops, the first
pops and pushes again, and the second one pushes. -/
def sampleCountedRun : Option (Machine × Nat) :=
  ((system sampleLayout pushPop).watch (instructions sampleLayout 0)).runGuarded
    (fun s a => StaysOnStack sampleLayout s.1 a) (sampleBoot, 0)
    [.request, .pendsv, .instr, .request, .pendsv, .instr, .instr, .request, .pendsv, .instr,
      .instr, .request, .pendsv, .instr]

def sampleEntry (i : Fin numTasks) : Word := if i = 0 then 0x08000201 else 0x08000301

def sampleTerritory : Territory pushPop (initialContext sampleLayout 0x08000101 (sampleEntry 0) 0)
    (bootMemory sampleLayout 0x08000101 sampleEntry fun _ => 7) :=
  pushPopTerritory (by decide) _

/-- Seen while the second task runs. -/
theorem preemption_unnoticed_sample : ∃ s, sampleCountedRun = some s ∧ s.2 = 3 ∧
    let top := (sampleLayout.taskStack 0).top
    let solo := alone pushPop 3 (initialContext sampleLayout 0x08000101 0x08000201 0) sampleBoot.mem
    s.1.mem (top - 1) = 1 ∧ contextOf sampleLayout s.1 0 = solo.1 ∧
      s.1.mem (top - 1) = solo.2 (top - 1) := by
  have hrun : sampleCountedRun.any (fun s => s.2 = 3 ∧
      s.1.mem ((sampleLayout.taskStack 0).top - 1) = 1) = true := by decide +kernel
  obtain ⟨s, hs, hcount, hword⟩ := System.exists_of_runGuarded hrun
  have hprivate : PrivateTo sampleLayout 0 sampleTerritory := pushPopTerritory_privateTo _ _ rfl
  have hreach : ((system sampleLayout pushPop).watch (instructions sampleLayout 0)).Reach
      (fun s a => Safe sampleLayout pushPop s.1 a ∧
        Spares sampleLayout 0 sampleTerritory s.1 s.2 a) (sampleBoot, 0) s := by
    apply (System.reach_of_runGuarded hs).mono
    intro s a hok
    exact ⟨hok.safe, hok.spares (fun n a ha => pushPopTerritory_mem _ _ rfl ha) s.2⟩
  obtain ⟨hcontext, hstack⟩ := preemption_unnoticed hprivate hreach
  rw [hcount] at hcontext hstack
  exact ⟨s, hs, hcount, hword, hcontext, hstack _ ⟨rfl, rfl⟩⟩

end RtosXrce.Arm
