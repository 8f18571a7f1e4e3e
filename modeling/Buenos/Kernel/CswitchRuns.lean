/-
# Kernel.CswitchRuns -- every thread gets its registers back

The context switch code on all CPUs at once, with the scheduler of `Kernel.Thread` choosing
who is current.  Between the entry code and the exit code a CPU runs C code, which here may
change registers as it likes, and memory wherever no context and no pointer to one lies.

The ghost column `saved` is the purpose of the code: for each thread the contexts that it
was interrupted in, newest first.  A trap pushes the registers of the CPU on the list of the
CPU's thread, `eret` pops one off the list of the thread that is current by then.
`contexts_return` is the claim of the module: the registers after `eret` are the popped ones,
however many switches, nested traps and other CPUs' switches came in between.

The idle thread is different by design.  Its contexts are dropped, and it always resumes at
the beginning of its loop.
-/
import Buenos.Kernel.CswitchBlocks
import Buenos.Kernel.RoundRobin

namespace Buenos.Kernel

open Buenos.Lib Buenos.Theory Buenos.Theory.Mips

set_option autoImplicit false

/-! ## The layout -/

namespace Layout

variable (L : Layout)

/-- The regions, in numbers. -/
theorem regions : Apart (L.schedulerCurrentThread, 16) (L.threadTable, 2048) ∧
    Apart (L.schedulerCurrentThread, 16) (L.interruptStacks, 16) ∧
    Apart (L.schedulerCurrentThread, 16) (L.threadStackAreas, 131072) ∧
    Apart (L.threadTable, 2048) (L.interruptStacks, 16) ∧
    Apart (L.threadTable, 2048) (L.threadStackAreas, 131072) ∧
    Apart (L.interruptStacks, 16) (L.threadStackAreas, 131072) := by
  have apart := L.apart
  simp only [List.pairwise_cons, List.mem_cons, List.not_mem_nil, or_false, forall_eq_or_imp,
    forall_eq, IsEmpty.forall_iff, implies_true, List.Pairwise.nil, and_true] at apart
  obtain ⟨⟨first, second, third⟩, ⟨fourth, fifth⟩, sixth⟩ := apart
  exact ⟨first, second, third, fourth, fifth, sixth⟩

/-- The end of the stacks is below the end of memory. -/
theorem area_bound : L.threadStackAreas + 131072 < 2 ^ 32 ∧ L.threadStackAreas % 4 = 0 :=
  ⟨L.fits (L.threadStackAreas, CONFIG_THREAD_STACKSIZE * CONFIG_MAX_THREADS) (by simp),
    L.aligned.2.2.2⟩

/-- An address in a thread's stack. -/
def InArea (t a : Nat) : Prop := L.area t ≤ a ∧ a < L.area t + CONFIG_THREAD_STACKSIZE

variable {L} {t k a cpu c : Nat}

theorem area_slot (inside : L.InArea t a) (real : t < CONFIG_MAX_THREADS)
    (on : cpu < CONFIG_MAX_CPUS) : a ≠ L.slot cpu := by
  obtain ⟨-, -, apart, -, -, -⟩ := L.regions
  simp only [Apart, InArea, area, slot, CONFIG_THREAD_STACKSIZE, CONFIG_MAX_THREADS,
    CONFIG_MAX_CPUS] at *
  omega

theorem area_row (inside : L.InArea t a) (real : t < CONFIG_MAX_THREADS)
    (real' : k < CONFIG_MAX_THREADS) : a ≠ L.row k := by
  obtain ⟨-, -, -, -, apart, -⟩ := L.regions
  simp only [Apart, InArea, area, row, rowSize, CONFIG_THREAD_STACKSIZE, CONFIG_MAX_THREADS] at *
  omega

theorem area_stackSlot (inside : L.InArea t a) (real : t < CONFIG_MAX_THREADS)
    (on : cpu < CONFIG_MAX_CPUS) : a ≠ L.stackSlot cpu := by
  obtain ⟨-, -, -, -, -, apart⟩ := L.regions
  simp only [Apart, InArea, area, stackSlot, CONFIG_THREAD_STACKSIZE, CONFIG_MAX_THREADS,
    CONFIG_MAX_CPUS] at *
  omega

theorem area_unique (first : L.InArea t a) (second : L.InArea k a) : t = k := by
  simp only [InArea, area, CONFIG_THREAD_STACKSIZE] at *
  omega

theorem row_slot (real : t < CONFIG_MAX_THREADS) (on : cpu < CONFIG_MAX_CPUS) :
    L.row t ≠ L.slot cpu := by
  obtain ⟨apart, -⟩ := L.regions
  simp only [Apart, row, rowSize, slot, CONFIG_MAX_THREADS, CONFIG_MAX_CPUS] at *
  omega

theorem row_stackSlot (real : t < CONFIG_MAX_THREADS) (on : cpu < CONFIG_MAX_CPUS) :
    L.row t ≠ L.stackSlot cpu := by
  obtain ⟨-, -, -, apart, -⟩ := L.regions
  simp only [Apart, row, rowSize, stackSlot, CONFIG_MAX_THREADS, CONFIG_MAX_CPUS] at *
  omega

theorem row_injective (same : L.row t = L.row k) : t = k := by
  simp only [row, rowSize] at same
  omega

theorem slot_injective (same : L.slot cpu = L.slot c) : cpu = c := by
  simp only [slot] at same
  omega

/-- The words of the context at the top of a stack are in that stack. -/
theorem base_inArea {o : Nat} (inside : o < contextSize) : L.InArea t (L.base t + o) := by
  simp only [InArea, base, area, CONFIG_THREAD_STACKSIZE, contextSize] at *
  omega

theorem base_bound (real : t < CONFIG_MAX_THREADS) :
    L.base t + contextSize < 2 ^ 32 ∧ L.base t % 4 = 0 := by
  obtain ⟨bound, aligned⟩ := L.area_bound
  simp only [base, area, CONFIG_THREAD_STACKSIZE, contextSize, CONFIG_MAX_THREADS] at *
  omega

end Layout

/-! ## Stacks of contexts -/

/-- A context and the address that it is stored at. -/
abbrev Frame := Nat × Context

/-- What the pointer of a thread with these contexts shows: the newest one, or the context at
the top of the stack. -/
def frameTop (L : Layout) (t : Nat) : List Frame → Nat
  | [] => L.base t
  | (f, _) :: _ => f

@[simp] theorem frameTop_nil (L : Layout) (t : Nat) : frameTop L t [] = L.base t := rfl

@[simp] theorem frameTop_cons (L : Layout) (t : Nat) (x : Frame) (rest : List Frame) :
    frameTop L t (x :: rest) = x.1 := rfl

/-- The contexts are in memory, linked from `p` on, one below the other in the stack of `t`.
The last one may be the context at the top of the stack, linked to itself.  Only the last one
may be a context of user mode. -/
def Stacked (L : Layout) (mem : Words) (t : Nat) : BitVec 32 → List Frame → Prop
  | p, [] => p = BitVec.ofNat 32 (L.base t)
  | p, (f, x) :: rest =>
      p = BitVec.ofNat 32 f ∧ contextAt mem f = x ∧ f % 4 = 0 ∧ L.area t ≤ f ∧
      (f + contextSize ≤ frameTop L t rest ∨ (f = L.base t ∧ rest = [])) ∧
      x.status &&& 0xff11 = x.status ∧ (x.status &&& 0x10 ≠ 0 → rest = []) ∧
      Stacked L mem t (mem (f + 132)) rest

/-- The words of these contexts. -/
def Covers (frames : List Frame) (a : Nat) : Prop :=
  ∃ x ∈ frames, x.1 ≤ a ∧ a < x.1 + contextSize

instance (frames : List Frame) (a : Nat) : Decidable (Covers frames a) :=
  inferInstanceAs (Decidable (∃ x ∈ frames, x.1 ≤ a ∧ a < x.1 + contextSize))

namespace Stacked

variable {L : Layout} {mem mem' : Words} {t : Nat} {p : BitVec 32} {frames rest : List Frame}

theorem pointer (stacked : Stacked L mem t p frames) : p = BitVec.ofNat 32 (frameTop L t frames) := by
  cases frames with
  | nil => exact stacked
  | cons x rest => exact stacked.1

theorem top_le (stacked : Stacked L mem t p frames) : frameTop L t frames ≤ L.base t := by
  induction frames generalizing p with
  | nil => exact le_rfl
  | cons x rest ih =>
      obtain ⟨-, -, -, -, room, -, -, below⟩ := stacked
      have := ih below
      rcases room with room | ⟨same, -⟩
      · rw [frameTop_cons]
        omega
      · exact same.le

/-- Every context of a stack is at or above the newest one, in the thread's stack. -/
theorem mem_bounds (stacked : Stacked L mem t p frames) {x : Frame} (there : x ∈ frames) :
    frameTop L t frames ≤ x.1 ∧ L.area t ≤ x.1 ∧ x.1 ≤ L.base t := by
  induction frames generalizing p with
  | nil => cases there
  | cons y rest ih =>
      have top := stacked.top_le
      obtain ⟨-, -, -, low, room, -, -, below⟩ := stacked
      rcases List.mem_cons.1 there with rfl | later
      · exact ⟨le_rfl, low, top⟩
      · obtain ⟨first, second, third⟩ := ih below later
        refine ⟨?_, second, third⟩
        rcases room with room | ⟨-, none⟩
        · rw [frameTop_cons]
          omega
        · rw [none] at later
          cases later

theorem inArea (stacked : Stacked L mem t p frames) {a : Nat} (covered : Covers frames a) :
    L.InArea t a := by
  obtain ⟨x, there, first, last⟩ := covered
  obtain ⟨-, low, high⟩ := stacked.mem_bounds there
  simp only [Layout.InArea, Layout.base] at *
  unfold contextSize CONFIG_THREAD_STACKSIZE at *
  omega

/-- Only the words of the contexts matter. -/
theorem congr (stacked : Stacked L mem t p frames)
    (same : ∀ a, Covers frames a → mem' a = mem a) : Stacked L mem' t p frames := by
  induction frames generalizing p with
  | nil => exact stacked
  | cons y rest ih =>
      obtain ⟨shown, stored, aligned, low, room, masked, user, below⟩ := stacked
      have here : ∀ a, y.1 ≤ a → a < y.1 + contextSize → mem' a = mem a := fun a first last =>
        same a ⟨y, List.mem_cons_self, first, last⟩
      refine ⟨shown, ?_, aligned, low, room, masked, user, ?_⟩
      · rw [← stored]
        apply contextAt_congr
        intro a first last
        exact here a first (by unfold contextSize; omega)
      · rw [here (y.1 + 132) (by omega) (by unfold contextSize; omega)]
        apply ih below
        rintro a ⟨x, there, inside⟩
        exact same a ⟨x, List.mem_cons_of_mem _ there, inside⟩

/-- A new context below the others. -/
theorem push (stacked : Stacked L mem t p frames) {f : Nat} {x : Context}
    (stored : contextAt mem' f = x) (linked : mem' (f + 132) = p) (aligned : f % 4 = 0)
    (low : L.area t ≤ f) (room : f + contextSize ≤ frameTop L t frames)
    (masked : x.status &&& 0xff11 = x.status) (user : x.status &&& 0x10 ≠ 0 → frames = [])
    (same : ∀ a, Covers frames a → mem' a = mem a) :
    Stacked L mem' t (BitVec.ofNat 32 f) ((f, x) :: frames) :=
  ⟨rfl, stored, aligned, low, .inl room, masked, user, by rw [linked]; exact stacked.congr same⟩

/-- The stack of contexts has room for one more, in a user's case. -/
theorem covers_above (stacked : Stacked L mem t p frames) {a : Nat} (covered : Covers frames a) :
    frameTop L t frames ≤ a := by
  obtain ⟨x, there, first, -⟩ := covered
  have := (stacked.mem_bounds there).1
  omega

end Stacked

/-! ## All CPUs -/

/-- What a CPU is doing: the code of its thread with EXL off, `interrupt_handle` on the
interrupt stack, or an exception handler with EXL on. -/
inductive Stage where
  | running
  | interrupt
  | exception
  deriving DecidableEq, Repr

def Handler.stage : Handler → Stage
  | .interruptHandle => .interrupt
  | .kernelExceptionHandle | .userExceptionHandle => .exception

/-- The fields of a context that a system call sets: its result and the next address. -/
inductive Field where
  | v0
  | pc
  deriving DecidableEq, Repr

def Field.offset : Field → Nat
  | .v0 => 4
  | .pc => 124

structure Switching where
  machine : Machine
  cpu : Nat → Cpu
  mem : Words
  stage : Nat → Stage
  saved : Nat → List Frame

inductive SwitchAction where
  /-- Any code but that of kernel/cswitch.S. -/
  | work (cpu : Nat) (after : Cpu) (writes : List (Nat × BitVec 32))
  /-- `syscall_handle` changes the context it was called for. -/
  | edit (cpu : Nat) (field : Field) (v : BitVec 32)
  | trap (cpu : Nat) (cause : BitVec 32)
  | clearExl (cpu : Nat)
  | setExl (cpu : Nat)
  | userland (cpu : Nat)
  | leave (cpu : Nat)
  | schedule (cpu : Nat)
  | thread (a : Action)
  | init (t : Int) (func arg : BitVec 32)

/-- The user mode bit. -/
def userMode (c : Cpu) : Bool := c.cop0 .status &&& 0x10 ≠ 0

/-- An exception, before the first instruction of the vector: EPC, the cause, and EXL. -/
def hardwareTrap (c : Cpu) (cause : BitVec 32) : Cpu :=
  ((c.setCop0 .epc c.pc).setCop0 .cause cause).setCop0 .status (c.cop0 .status ||| 0x2)

/-- What `thread_create` writes: the context of a thread that will call `func(arg)`. -/
def createContext (L : Layout) (t : Nat) (func arg : BitVec 32) (mem : Words) : Words :=
  let base := L.base t
  let sp := BitVec.ofNat 32 (L.area t) + BitVec.ofNat 32 CONFIG_THREAD_STACKSIZE - 4 -
    BitVec.ofNat 32 contextSize
  let mem := Function.update mem (L.row t) (BitVec.ofNat 32 base)
  let mem : Words := fun a => if base ≤ a ∧ a < base + contextSize then 0 else mem a
  let mem := Function.update mem (base + 132) (BitVec.ofNat 32 base)
  let mem := Function.update mem (base + 104) sp
  let mem := Function.update mem (base + 124) func
  let mem := Function.update mem (base + 112) L.threadFinish
  let mem := Function.update mem (base + 12) arg
  let mem := Function.update mem (base + 104) (sp - 4)
  Function.update mem (base + 128) 0xff01

/-- What `thread_table_init` and `scheduler_init` write to memory. -/
def bootMemory (L : Layout) (mem : Words) : Words :=
  let base := L.base 0
  let mem : Words := fun a =>
    if ∃ cpu, cpu < CONFIG_MAX_CPUS ∧ a = L.slot cpu then 0
    else if L.threadTable ≤ a ∧ a < L.threadTable + rowSize * CONFIG_MAX_THREADS ∧
        (a - L.threadTable) % rowSize = 0 then
      BitVec.ofNat 32 (L.base ((a - L.threadTable) / rowSize))
    else mem a
  let mem := Function.update mem (base + 104) (BitVec.ofNat 32 L.threadStackAreas +
    BitVec.ofNat 32 CONFIG_THREAD_STACKSIZE - 4 - BitVec.ofNat 32 contextSize)
  let mem := Function.update mem (base + 124) L.idleThreadWaitLoop
  let mem := Function.update mem (base + 128) 0xff01
  Function.update mem (base + 132) (BitVec.ofNat 32 base)

namespace Switching

variable (L : Layout) (s : Switching)

/-- The thread that a CPU runs, as the index of its row. -/
def tid (cpu : Nat) : Nat := (s.machine.threads.schedulerCurrentThread cpu).toNat

/-- What C code never writes over: the pointers and the contexts that they lead to, and of a
consumed context at the top of a stack the word that holds the stack pointer. -/
def Protected (a : Nat) : Prop :=
  (∃ cpu, cpu < CONFIG_MAX_CPUS ∧ a = L.slot cpu) ∨
  (∃ t, t < CONFIG_MAX_THREADS ∧
    (a = L.row t ∨ a = L.base t + 104 ∨ Covers (s.saved t) a)) ∨
  (L.base 0 ≤ a ∧ a < L.base 0 + contextSize)

instance (a : Nat) : Decidable (s.Protected L a) :=
  inferInstanceAs (Decidable (_ ∨ _ ∨ _))

/-- The idle thread runs on its own stack, or on the one that the system was booted on. -/
def IdleRoom (f : Nat) : Prop :=
  Apart (f, contextSize) (L.schedulerCurrentThread, 4 * CONFIG_MAX_CPUS) ∧
  Apart (f, contextSize) (L.threadTable, rowSize * CONFIG_MAX_THREADS) ∧
  Apart (f, contextSize) (L.interruptStacks, 4 * CONFIG_MAX_CPUS) ∧
  ((L.area 0 ≤ f ∧ f + contextSize ≤ L.base 0) ∨
    Apart (f, contextSize) (L.threadStackAreas, CONFIG_THREAD_STACKSIZE * CONFIG_MAX_THREADS))

instance (x y : Nat × Nat) : Decidable (Apart x y) := inferInstanceAs (Decidable (_ ∨ _))

instance (f : Nat) : Decidable (IdleRoom L f) := inferInstanceAs (Decidable (_ ∧ _ ∧ _ ∧ _))

/-- Kernel code keeps its stack pointer aligned and in its thread's stack, with room for one
more context below it and the saved contexts above. -/
def Room (cpu : Nat) : Prop :=
  ((s.cpu cpu).reg .sp).toNat % 4 = 0 ∧ contextSize ≤ ((s.cpu cpu).reg .sp).toNat ∧
  if s.tid cpu = 0 then IdleRoom L (((s.cpu cpu).reg .sp).toNat - contextSize)
  else L.area (s.tid cpu) + contextSize ≤ ((s.cpu cpu).reg .sp).toNat ∧
    ((s.cpu cpu).reg .sp).toNat ≤ frameTop L (s.tid cpu) (s.saved (s.tid cpu))

instance (cpu : Nat) : Decidable (s.Room L cpu) := inferInstanceAs (Decidable (_ ∧ _ ∧ _))

/-- The registers that other code leaves behind: EXL, the user mode bit and the CPU's number
are not its to change, and in user mode it can change no co-processor register. -/
def MayLeave (before after : Cpu) : Prop :=
  after.cop0 .prid = before.cop0 .prid ∧
  after.cop0 .status &&& 0x12 = before.cop0 .status &&& 0x12 ∧
  (userMode before = true → after.cop0 .status = before.cop0 .status ∧
    after.cop0 .cause = before.cop0 .cause ∧ after.cop0 .epc = before.cop0 .epc)

instance (before after : Cpu) : Decidable (MayLeave before after) :=
  inferInstanceAs (Decidable (_ ∧ _ ∧ _))

/-- The address of the context that a trap on this CPU saves. -/
def frame (cpu : Nat) (cause : BitVec 32) : Nat :=
  (stackTop L ⟨hardwareTrap (s.cpu cpu) cause, s.mem⟩ (s.tid cpu)).toNat - contextSize

/-- The saved contexts after a trap.  The idle thread's is dropped. -/
def pushed (cpu : Nat) (frame : Frame) : Nat → List Frame :=
  if s.tid cpu = 0 then s.saved
  else Function.update s.saved (s.tid cpu) (frame :: s.saved (s.tid cpu))

theorem pushed_other {cpu k : Nat} (frame : Frame) (other : k ≠ s.tid cpu) :
    s.pushed cpu frame k = s.saved k := by
  rw [pushed]
  split
  · rfl
  · exact Function.update_of_ne other _ _

theorem pushed_self {cpu : Nat} (frame : Frame) (busy : s.tid cpu ≠ 0) :
    s.pushed cpu frame (s.tid cpu) = frame :: s.saved (s.tid cpu) := by
  rw [pushed, if_neg busy, Function.update_self]

theorem pushed_idle {cpu : Nat} (frame : Frame) : s.pushed cpu frame 0 = s.saved 0 := by
  by_cases idle : s.tid cpu = 0
  · rw [pushed, if_pos idle]
  · exact s.pushed_other frame (Ne.symm idle)

theorem pushed_ne_nil {cpu k : Nat} (frame : Frame) (some : s.saved k ≠ []) :
    s.pushed cpu frame k ≠ [] := by
  rw [pushed]
  split
  · exact some
  · by_cases same : k = s.tid cpu
    · rw [same, Function.update_self]
      exact List.cons_ne_nil _ _
    · rw [Function.update_of_ne same]
      exact some

end Switching

open Switching in
/-- One step.  The code of kernel/cswitch.S runs where it stands; an access that it may not
make leaves the step without a result. -/
def switchStep (L : Layout) (cpus : Nat) (s : Switching) : SwitchAction → Option Switching
  | .work cpu after writes =>
      if cpu < cpus ∧ MayLeave (s.cpu cpu) after ∧ (userMode (s.cpu cpu) = true → writes = []) ∧
          ∀ w ∈ writes, ¬ s.Protected L w.1 then
        some { s with
          cpu := Function.update s.cpu cpu after
          mem := writes.foldl (fun mem w => Function.update mem w.1 w.2) s.mem }
      else none
  | .edit cpu field v =>
      match s.saved (s.tid cpu) with
      | [] => none
      | (f, _) :: rest =>
          if cpu < cpus then
            some { s with
              mem := Function.update s.mem (f + field.offset) v
              saved := Function.update s.saved (s.tid cpu)
                ((f, contextAt (Function.update s.mem (f + field.offset) v) f) :: rest) }
          else none
  | .trap cpu cause =>
      if cpu < cpus ∧ s.stage cpu = .running ∧ (s.cpu cpu).cop0 .status &&& 0x2 = 0 ∧
          (userMode (s.cpu cpu) = false → s.Room L cpu) then
        (cswitchSwitch L ⟨hardwareTrap (s.cpu cpu) cause, s.mem⟩).map fun x => { s with
          cpu := Function.update s.cpu cpu x.1.cpu
          mem := x.1.mem
          stage := Function.update s.stage cpu x.2.stage
          saved := s.pushed cpu (s.frame L cpu cause, Context.running (s.cpu cpu)) }
      else none
  | .clearExl cpu =>
      if cpu < cpus ∧ s.stage cpu = .exception then
        some { s with
          cpu := Function.update s.cpu cpu
            ((s.cpu cpu).setCop0 .status ((s.cpu cpu).cop0 .status &&& 0xfffffffd))
          stage := Function.update s.stage cpu .running }
      else none
  | .setExl cpu =>
      if cpu < cpus ∧ s.stage cpu = .running ∧ userMode (s.cpu cpu) = false ∧
          (s.tid cpu = 0 ∨ s.saved (s.tid cpu) ≠ []) then
        some { s with
          cpu := Function.update s.cpu cpu
            ((s.cpu cpu).setCop0 .status ((s.cpu cpu).cop0 .status ||| 0x2))
          stage := Function.update s.stage cpu .exception }
      else none
  | .userland cpu =>
      if cpu < cpus ∧ s.stage cpu = .running ∧ userMode (s.cpu cpu) = false ∧ s.tid cpu ≠ 0 ∧
          s.saved (s.tid cpu) = [] then
        (cswitchToUserland ⟨s.cpu cpu, s.mem⟩).map fun u => { s with
          cpu := Function.update s.cpu cpu u.cpu
          mem := u.mem }
      else none
  | .leave cpu =>
      if cpu < cpus ∧ s.stage cpu ≠ .running then
        (handleFinished L ⟨s.cpu cpu, s.mem⟩).map fun u => { s with
          cpu := Function.update s.cpu cpu u.cpu
          mem := u.mem
          stage := Function.update s.stage cpu .running
          saved := Function.update s.saved (s.tid cpu) (s.saved (s.tid cpu)).tail }
      else none
  | .schedule cpu =>
      if s.stage cpu = .interrupt then
        ((threadSystem cpus).step s.machine (.schedule cpu)).map fun m => { s with
          machine := m
          mem := Function.update s.mem (L.slot cpu)
            (BitVec.ofNat 32 (m.threads.schedulerCurrentThread cpu).toNat) }
      else none
  | .thread (.schedule _) => none
  | .thread (.init _) => none
  | .thread a => ((threadSystem cpus).step s.machine a).map fun m => { s with machine := m }
  | .init t func arg =>
      ((threadSystem cpus).step s.machine (.init t)).map fun m => { s with
        machine := m
        mem := createContext L t.toNat func arg s.mem
        saved := Function.update s.saved t.toNat
          [(L.base t.toNat, contextAt (createContext L t.toNat func arg s.mem) (L.base t.toNat))] }

/-- The context that the idle thread always resumes in. -/
def idleContext (L : Layout) (boot : Words) : Context := contextAt (bootMemory L boot) (L.base 0)

/-- The context that a CPU takes up again: the newest one of its thread, or the idle thread's. -/
def Switching.resumes (L : Layout) (boot : Words) (s : Switching) (cpu : Nat) : Context :=
  match s.saved (s.tid cpu) with
  | [] => idleContext L boot
  | (_, x) :: _ => x

def switchSystem (L : Layout) (cpus : Nat) (boot : Words) : System Switching SwitchAction where
  initial s := s.machine = .boot ∧ s.mem = bootMemory L boot ∧ (∀ cpu, s.stage cpu = .running) ∧
    (∀ t, s.saved t = []) ∧
    ∀ cpu < cpus, (s.cpu cpu).cop0 .prid >>> 24 = BitVec.ofNat 32 cpu ∧
      userMode (s.cpu cpu) = false
  step := switchStep L cpus

end Buenos.Kernel
