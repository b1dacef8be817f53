import Mathlib.Data.Nat.Bitwise
import RtosXrce.Library.Transition

/-!
# The Cortex-M port: `kernel_arm.c` and `PendSV_Handler`

Memory is the RAM outside the main stack, on which the handlers run, word by word. A pointer to a
word is the upper 30 bits of its byte address. The processor's registers are those of thread
mode, where the stack pointer is `psp`. The field `psr` is `xpsr` without its bits 0 to 8 (the
exception number, zero in thread mode) and without bit 9, in which exception entry notes that
it has aligned the stack; `pc` is an instruction's address without its zero bit.
-/

namespace RtosXrce.Arm

abbrev Word := BitVec 32

/-- `uint32_t *` -/
abbrev Pointer := BitVec 30

abbrev Memory := Pointer → Word

abbrev numTasks : Nat := 2

scoped instance neZero_numTasks : NeZero numTasks := ⟨by decide⟩

def stackWords : Nat := 256
def frameWords : Nat := 16
def bootScratchWords : Nat := 64

/-- The byte address a pointer stands for. -/
def address (p : Pointer) : Word := p ++ 0#2

def pointer (w : Word) : Pointer := w.extractLsb' 2 30

@[simp] theorem pointer_address (p : Pointer) : pointer (address p) = p := by
  apply BitVec.eq_of_getLsbD_eq
  intro i hi
  have hlow : ¬ 2 + i < 2 := by omega
  rw [pointer, address, BitVec.getLsbD_extractLsb', BitVec.getLsbD_append, decide_eq_true hi,
    Bool.true_and, if_neg hlow, Nat.add_sub_cancel_left]

/-- Words stored one above the other from `p` on. -/
def Memory.store (m : Memory) (p : Pointer) (ws : List Word) : Memory :=
  fun a => (ws[(a - p).toNat]?).getD (m a)

def Memory.load (m : Memory) (p : Pointer) (n : Nat) : List Word :=
  (List.range n).map fun k => m (p + BitVec.ofNat 30 k)

/-- A static array. -/
structure Region where
  base : Pointer
  size : Nat

def Region.top (r : Region) : Pointer := r.base + BitVec.ofNat 30 r.size

instance : Membership Pointer Region where
  mem r a := (a - r.base).toNat < r.size

/-- Where the linker has put the statics of `kernel_arm.c`. -/
structure Layout where
  taskStacks : Pointer
  bootScratchStack : Pointer
  taskSp : Pointer
  currentTaskIdx : Pointer
  apart : List.Pairwise (fun r r' : Region => ∀ a, a ∈ r → a ∉ r')
    [⟨taskStacks, numTasks * stackWords⟩, ⟨bootScratchStack, bootScratchWords⟩,
      ⟨taskSp, numTasks⟩, ⟨currentTaskIdx, 1⟩]

scoped instance neZero_registers : NeZero 13 := ⟨by decide⟩

/-- The registers of a thread. -/
structure Context where
  r : Fin 13 → Word
  sp : Pointer
  lr : Word
  pc : BitVec 31
  psr : BitVec 22

section Handlers

variable (L : Layout)

/-- `task_stacks[idx]` -/
def Layout.taskStack (idx : Nat) : Region :=
  ⟨L.taskStacks + BitVec.ofNat 30 (idx * stackWords), stackWords⟩

def Layout.bootScratch : Region := ⟨L.bootScratchStack, bootScratchWords⟩

def taskStackInit (taskReturnTrap : Word) (m : Memory) (idx : Nat) (entry : Word) : Memory :=
  let sp := (L.taskStack idx).top - BitVec.ofNat 30 frameWords
  let m := m.store sp (List.replicate 8 0 ++
    [0, 0, 0, 0, 0, taskReturnTrap, entry, 0x01000000])
  m.store (L.taskSp + BitVec.ofNat 30 idx) [address sp]

/-- `current_task_idx` is an `int`; the index of an array access is its value. -/
def schedulerSwitchContext (m : Memory) (currentSp : Pointer) : Memory × Pointer :=
  let idx := m L.currentTaskIdx
  let m := if (0#32).sle idx then m.store (L.taskSp + idx.setWidth 30) [address currentSp] else m
  let idx := (idx + 1).srem (BitVec.ofNat 32 numTasks)
  let m := m.store L.currentTaskIdx [idx]
  (m, pointer (m (L.taskSp + idx.setWidth 30)))

/-- The eight registers the hardware saves on exception entry. -/
def hardwareFrame (c : Context) : List Word :=
  [c.r 0, c.r 1, c.r 2, c.r 3, c.r 12, c.lr, c.pc ++ 0#1,
    c.psr ++ BitVec.ofBool (c.sp.getLsbD 0) ++ 0#9]

/-- With `STKALIGN`, as at reset, the frame is aligned to eight bytes, and bit 9 of the saved
`xpsr` notes that a word was skipped. -/
def frameptr (c : Context) : Pointer := (c.sp - 8) &&& ~~~1#30

/-- Exception entry from thread mode. -/
def exceptionEntry (c : Context) (m : Memory) : Pointer × Memory :=
  (frameptr c, m.store (frameptr c) (hardwareFrame c))

/-- Exception return with `EXC_RETURN` 0xFFFFFFFD: to thread mode, with the frame at `psp`. -/
def exceptionReturn (r : Fin 13 → Word) (psp : Pointer) (m : Memory) : Context :=
  let xpsr := m (psp + 7)
  { r := fun i =>
      if i < 4 then m (psp + BitVec.ofNat 30 i) else if i = 12 then m (psp + 4) else r i
    sp := (psp + 8) ||| (BitVec.ofBool (xpsr.getLsbD 9)).setWidth 30
    lr := m (psp + 5)
    pc := (m (psp + 6)).extractLsb' 1 31
    psr := xpsr.extractLsb' 10 22 }

/-- `r4` to `r11` -/
def calleeSaved (r : Fin 13 → Word) : List Word :=
  [r 4, r 5, r 6, r 7, r 8, r 9, r 10, r 11]

/-- `ldmia r0!, {r4-r11}` -/
def loadCalleeSaved (r : Fin 13 → Word) (p : Pointer) (m : Memory) : Fin 13 → Word :=
  fun i => if 4 ≤ i ∧ i < 12 then m (p + BitVec.ofNat 30 (i - 4)) else r i

/-- The registers, `psp` and the memory at `bx lr`. What the call leaves in `r0` to `r3` and `r12`
does not matter: exception return loads these. -/
def pendSVHandler (r : Fin 13 → Word) (psp : Pointer) (m : Memory) :
    (Fin 13 → Word) × Pointer × Memory :=
  let r0 := psp - 8
  let m := m.store r0 (calleeSaved r)
  let (m, r0) := schedulerSwitchContext L m r0
  (loadCalleeSaved r r0 m, r0 + 8, m)

end Handlers

/-- The processor in thread mode, the memory and the pending bit of `PendSV`. -/
structure Machine where
  cpu : Context
  mem : Memory
  pendsvset : Bool

inductive Act where
  /-- The running thread executes an instruction. -/
  | instr
  /-- `SysTick_Handler`, or `request_context_switch`, writes `PENDSVSET`. -/
  | request
  /-- The pending `PendSV` is taken. -/
  | pendsv

/-- `exec` is the processor's own: what one instruction does to the registers and the memory. -/
def system (L : Layout) (exec : Context → Memory → Context × Memory) :
    Library.System Machine Act where
  step s
    | .instr => some { s with cpu := (exec s.cpu s.mem).1, mem := (exec s.cpu s.mem).2 }
    | .request => some { s with pendsvset := true }
    | .pendsv =>
      if s.pendsvset then
        let (psp, m) := exceptionEntry s.cpu s.mem
        let (r, psp, m) := pendSVHandler L s.cpu.r psp m
        some ⟨exceptionReturn r psp m, m, false⟩
      else none

/-- The statics as `main` leaves them: `current_task_idx` is initialised to -1 and
`task_stack_init` has been called for both tasks. -/
def bootMemory (L : Layout) (taskReturnTrap : Word) (entry : Fin numTasks → Word)
    (ram : Memory) : Memory :=
  let m := ram.store L.currentTaskIdx [-1]
  let m := taskStackInit L taskReturnTrap m 0 (entry 0)
  taskStackInit L taskReturnTrap m 1 (entry 1)

def primePspForFirstSwitch (L : Layout) (c : Context) : Context :=
  { c with sp := L.bootScratch.top }

/-- `main` once `psp` is primed, with whatever its other registers hold. -/
def boot (L : Layout) (taskReturnTrap : Word) (entry : Fin numTasks → Word) (ram : Memory)
    (main : Context) : Machine :=
  ⟨primePspForFirstSwitch L main, bootMemory L taskReturnTrap entry ram, false⟩

end RtosXrce.Arm
