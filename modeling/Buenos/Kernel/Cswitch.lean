/-
# Kernel.Cswitch -- the context switch code

kernel/cswitch.S, block by block under its own labels.  A branch is a Lean `if`; the delay
slots behind branches hold only `nop`, and a jump to a shared block takes its return address
in `k1`, which is the order of the blocks here.

`cswitchSwitch` is what runs from the exception vector to the call of the C handler, and
`handleFinished` what runs from the handler's return to `eret`.  A context is what the first
one stores and the second one loads: every register but `k0` and `k1`, `hi`, `lo`, the program
counter, and the bits of the status that belong to the thread.
-/
import Buenos.Kernel.Thread
import Buenos.Theory.Mips

namespace Buenos.Kernel

open Buenos.Lib Buenos.Theory Buenos.Theory.Mips

set_option autoImplicit false

def CONFIG_MAX_CPUS : Nat := 4
def CONFIG_THREAD_STACKSIZE : Nat := 4096

/-- `sizeof(context_t)`. -/
def contextSize : Nat := 136

/-- `sizeof(thread_table_t)`; the code shifts by 6 to multiply with it. -/
def rowSize : Nat := 64

/-- Two regions, each a start and a length, have no address in common. -/
def Apart (x y : Nat × Nat) : Prop := x.1 + x.2 ≤ y.1 ∨ y.1 + y.2 ≤ x.1

/-- Where the linker put the kernel's variables. -/
structure Layout where
  schedulerCurrentThread : Nat
  threadTable : Nat
  interruptStacks : Nat
  threadStackAreas : Nat
  aligned : schedulerCurrentThread % 4 = 0 ∧ threadTable % 4 = 0 ∧ interruptStacks % 4 = 0 ∧
    threadStackAreas % 4 = 0
  apart : [(schedulerCurrentThread, 4 * CONFIG_MAX_CPUS),
    (threadTable, rowSize * CONFIG_MAX_THREADS), (interruptStacks, 4 * CONFIG_MAX_CPUS),
    (threadStackAreas, CONFIG_THREAD_STACKSIZE * CONFIG_MAX_THREADS)].Pairwise Apart
  /-- Code addresses. -/
  threadFinish : BitVec 32
  idleThreadWaitLoop : BitVec 32
  fits : ∀ x ∈ [(schedulerCurrentThread, 4 * CONFIG_MAX_CPUS),
    (threadTable, rowSize * CONFIG_MAX_THREADS), (interruptStacks, 4 * CONFIG_MAX_CPUS),
    (threadStackAreas, CONFIG_THREAD_STACKSIZE * CONFIG_MAX_THREADS)], x.1 + x.2 < 2 ^ 32

namespace Layout

variable (L : Layout)

/-- `&thread_table[t]`, whose first word is the context pointer. -/
def row (t : Nat) : Nat := L.threadTable + rowSize * t

/-- `&scheduler_current_thread[cpu]`. -/
def slot (cpu : Nat) : Nat := L.schedulerCurrentThread + 4 * cpu

/-- `&interrupt_stacks[cpu]`. -/
def stackSlot (cpu : Nat) : Nat := L.interruptStacks + 4 * cpu

/-- The lowest address of a thread's stack. -/
def area (t : Nat) : Nat := L.threadStackAreas + CONFIG_THREAD_STACKSIZE * t

/-- The context at the top of a thread's stack, which `thread_create` fills in. -/
def base (t : Nat) : Nat := L.area t + CONFIG_THREAD_STACKSIZE - contextSize

end Layout

/-! ## The code -/

/-- `_FETCH_CPU_NUM(reg)`. -/
def fetchCpuNum (reg : Reg) : List Instr := [.mfc0 reg .prid, .srl reg reg 24]

/-- The TID of the CPU's current thread, in `k0`. -/
def loadTid (L : Layout) : List Instr :=
  [.la .k0 L.schedulerCurrentThread] ++ fetchCpuNum .k1 ++
    [.sll .k1 .k1 2, .addu .k0 .k0 .k1, .lw .k0 0 .k0]

def loadRow (L : Layout) : List Instr := [.sll .k0 .k0 6, .la .k1 L.threadTable]

/-- The first test of `_cswitch_switch`: the user mode bit. -/
def checkUserMode : List Instr := [.mfc0 .k0 .status, .andi .k0 .k0 0x10]

/-- The top of the kernel stack of a thread that ran in user mode. -/
def userStack (L : Layout) : List Instr :=
  loadTid L ++ loadRow L ++ [.addu .k1 .k0 .k1, .lw .k1 0 .k1, .nop, .lw .k0 104 .k1]

def notUsermodeException : List Instr := [.addu .k0 .sp .zero]

def usermodeException : List Instr := [.addiu .k0 .k0 (-136)]

def cswitchContextSave : List Instr :=
  [.sw .AT 0 .k0, .sw .v0 4 .k0, .sw .v1 8 .k0, .sw .a0 12 .k0, .sw .a1 16 .k0, .sw .a2 20 .k0,
    .sw .a3 24 .k0, .sw .t0 28 .k0, .sw .t1 32 .k0, .sw .t2 36 .k0, .sw .t3 40 .k0,
    .sw .t4 44 .k0, .sw .t5 48 .k0, .sw .t6 52 .k0, .sw .t7 56 .k0, .sw .s0 60 .k0,
    .sw .s1 64 .k0, .sw .s2 68 .k0, .sw .s3 72 .k0, .sw .s4 76 .k0, .sw .s5 80 .k0,
    .sw .s6 84 .k0, .sw .s7 88 .k0, .sw .t8 92 .k0, .sw .t9 96 .k0, .sw .gp 100 .k0,
    .sw .sp 104 .k0, .sw .fp 108 .k0, .sw .ra 112 .k0, .mfhi .t1, .sw .t1 116 .k0, .mflo .t1,
    .sw .t1 120 .k0, .mfc0 .t1 .epc, .sw .t1 124 .k0, .mfc0 .t1 .status,
    .andi .t1 .t1 0xff11, .sw .t1 128 .k0]

/-- From `_cswitch_r1` on: the old context pointer goes into the new context. -/
def cswitchR1 (L : Layout) : List Instr :=
  [.addu .sp .k0 .zero] ++ loadTid L ++ loadRow L ++
    [.addu .t1 .k0 .k1, .lw .t0 0 .t1, .nop, .sw .t0 132 .sp]

/-- The new context pointer, which the idle thread does not get. -/
def setContext : List Instr := [.sw .sp 0 .t1]

/-- The exception code of the cause. -/
def exceptionCode (reg : Reg) : List Instr :=
  [.mfc0 reg .cause, .srl reg reg 2, .andi reg reg 0x1f]

/-- An interrupt is handled on the CPU's interrupt stack. -/
def interruptStack (L : Layout) : List Instr :=
  [.la .k0 L.interruptStacks] ++ fetchCpuNum .k1 ++
    [.sll .k1 .k1 2, .addu .k0 .k0 .k1, .lw .sp 0 .k0]

/-- From `_cswitch_stack_ok` to the choice of the handler; the user mode bit moves to `t7`. -/
def cswitchStackOk : List Instr :=
  [.addiu .sp .sp (-4), .mfc0 .k0 .status, .li .k1 0xffffffef, .li .t1 0x00000010,
    .and .t7 .t1 .k0, .and .k0 .k0 .k1, .mtc0 .k0 .status] ++ exceptionCode .a0

/-- The C function that is called, with its argument in `a0`. -/
inductive Handler where
  | interruptHandle
  | kernelExceptionHandle
  | userExceptionHandle
  deriving DecidableEq, Repr

/-- The branches of `_cswitch_switch`, each over its blocks. -/
def takeStack (L : Layout) (s : State) : Option State :=
  if s.cpu.reg .k0 = 0 then run notUsermodeException s else run (userStack L) s

def linkContext (s : State) : Option State :=
  if s.cpu.reg .k0 = 0 then some s else run setContext s

def handlerStack (L : Layout) (s : State) : Option State :=
  if s.cpu.reg .k1 ≠ 0 then some s else run (interruptStack L) s

def callHandler (s : State) : Option (State × Handler) :=
  if s.cpu.reg .a0 = 0 then (run [.mfc0 .a0 .cause] s).map fun s => (s, .interruptHandle)
  else if s.cpu.reg .t7 = 0 then some (s, .kernelExceptionHandle)
  else some (s, .userExceptionHandle)

/-- `_cswitch_switch` up to the call of the handler. -/
def cswitchSwitch (L : Layout) (s : State) : Option (State × Handler) := do
  let s ← run checkUserMode s
  let s ← takeStack L s
  let s ← run usermodeException s
  let s ← run cswitchContextSave s
  let s ← run (cswitchR1 L) s
  let s ← linkContext s
  let s ← run (exceptionCode .k1) s
  let s ← handlerStack L s
  let s ← run cswitchStackOk s
  callHandler s

def cswitchContextRestore : List Instr :=
  [.lw .t1 116 .k0, .nop, .mthi .t1, .lw .t1 120 .k0, .nop, .mtlo .t1, .lw .t1 124 .k0, .nop,
    .mtc0 .t1 .epc, .lw .t1 128 .k0, .nop, .mfc0 .t2 .status, .li .t3 0xffff00ee,
    .and .t2 .t2 .t3, .or .t1 .t2 .t1, .mtc0 .t1 .status] ++
  [.lw .AT 0 .k0, .lw .v0 4 .k0, .lw .v1 8 .k0, .lw .a0 12 .k0, .lw .a1 16 .k0, .lw .a2 20 .k0,
    .lw .a3 24 .k0, .lw .t0 28 .k0, .lw .t1 32 .k0, .lw .t2 36 .k0, .lw .t3 40 .k0,
    .lw .t4 44 .k0, .lw .t5 48 .k0, .lw .t6 52 .k0, .lw .t7 56 .k0, .lw .s0 60 .k0,
    .lw .s1 64 .k0, .lw .s2 68 .k0, .lw .s3 72 .k0, .lw .s4 76 .k0, .lw .s5 80 .k0,
    .lw .s6 84 .k0, .lw .s7 88 .k0, .lw .t8 92 .k0, .lw .t9 96 .k0, .lw .gp 100 .k0,
    .lw .sp 104 .k0, .lw .fp 108 .k0, .lw .ra 112 .k0]

/-- `eret`: back to EPC, with EXL off. -/
def eret (c : Cpu) : Cpu :=
  { c.setCop0 .status (c.cop0 .status &&& 0xfffffffd) with pc := c.cop0 .epc }

/-- `_handle_finished`: the pointer of the current thread goes back to the old context. -/
def popContext (L : Layout) : List Instr :=
  loadTid L ++ [.nop] ++ loadRow L ++
    [.addu .t0 .k0 .k1, .lw .k0 0 .t0, .nop, .lw .t1 132 .k0, .nop, .sw .t1 0 .t0]

def handleFinished (L : Layout) (s : State) : Option State := do
  let s ← run (popContext L) s
  let s ← run cswitchContextRestore s
  some { s with cpu := eret s.cpu }

/-- `_cswitch_to_userland`, with the address of the context in `a0`. -/
def cswitchToUserland (s : State) : Option State := do
  let s ← run [.mfc0 .t0 .status, .li .t1 0x00000002, .or .t0 .t0 .t1, .mtc0 .t0 .status,
    .addu .k0 .a0 .zero] s
  let s ← run cswitchContextRestore s
  some { s with cpu := eret s.cpu }

/-! ## Contexts -/

/-- `context_t` without its last word, the pointer to the previous context. -/
@[ext] structure Context where
  cpuRegs : Fin 29 → BitVec 32
  hi : BitVec 32
  lo : BitVec 32
  pc : BitVec 32
  status : BitVec 32

/-- The registers by their index in `cpu_regs`. -/
def contextRegs : List Reg :=
  [.AT, .v0, .v1, .a0, .a1, .a2, .a3, .t0, .t1, .t2, .t3, .t4, .t5, .t6, .t7, .s0, .s1, .s2, .s3,
    .s4, .s5, .s6, .s7, .t8, .t9, .gp, .sp, .fp, .ra]

def contextReg (i : Fin 29) : Reg := contextRegs.get i

/-- The context that is stored at an address. -/
def contextAt (mem : Words) (a : Nat) : Context where
  cpuRegs i := mem (a + 4 * i)
  hi := mem (a + 116)
  lo := mem (a + 120)
  pc := mem (a + 124)
  status := mem (a + 128)

/-- The context of a CPU that was just interrupted: the program counter is in EPC, and of the
status only the interrupt mask, the user mode bit and the interrupt enable bit count. -/
def Context.interrupted (c : Cpu) : Context where
  cpuRegs i := c.reg (contextReg i)
  hi := c.hi
  lo := c.lo
  pc := c.cop0 .epc
  status := c.cop0 .status &&& 0xff11

/-- The context of a CPU that runs. -/
def Context.running (c : Cpu) : Context where
  cpuRegs i := c.reg (contextReg i)
  hi := c.hi
  lo := c.lo
  pc := c.pc
  status := c.cop0 .status &&& 0xff11

theorem contextAt_congr {mem mem' : Words} {a : Nat}
    (same : ∀ b, a ≤ b → b < a + 132 → mem' b = mem b) : contextAt mem' a = contextAt mem a := by
  ext1
  · funext i
    exact same _ (by omega) (by omega)
  all_goals exact same _ (by omega) (by omega)

end Buenos.Kernel
