/-
# Kernel.CswitchBlocks -- what the context switch code does

One specification for each block of kernel/cswitch.S, and from these the two that the rest
of the development uses.  `cswitchSwitch_run`: entering the kernel pushes one context on the
stack of the thread that the CPU runs.  `handleFinished_run`: leaving it pops one off the
stack of the thread that the CPU runs by then.  Both say everything that happens to memory,
and that no access is unaligned.
-/
import Buenos.Kernel.Cswitch

namespace Buenos.Kernel

open Buenos.Lib Buenos.Theory Buenos.Theory.Mips

set_option autoImplicit false

/-! ## The blocks -/

namespace Layout

variable (L : Layout)

theorem slot_facts {cpu : Nat} (on : cpu < CONFIG_MAX_CPUS) :
    L.slot cpu < 2 ^ 32 ∧ L.slot cpu % 4 = 0 := by
  have fits := L.fits _ (.head _)
  have aligned := L.aligned.1
  simp only [slot] at *
  omega

theorem row_facts {t : Nat} (real : t < CONFIG_MAX_THREADS) :
    L.row t < 2 ^ 32 ∧ L.row t % 4 = 0 := by
  have fits := L.fits _ (.tail _ (.head _))
  have aligned := L.aligned.2.1
  simp only [row, rowSize] at *
  omega

theorem stackSlot_facts {cpu : Nat} (on : cpu < CONFIG_MAX_CPUS) :
    L.stackSlot cpu < 2 ^ 32 ∧ L.stackSlot cpu % 4 = 0 := by
  have fits := L.fits _ (.tail _ (.tail _ (.head _)))
  have aligned := L.aligned.2.2.1
  simp only [stackSlot] at *
  omega

end Layout

section Blocks

variable {L : Layout} {s : State} {cpu t : Nat}

theorem loadTid_run (on : cpu < CONFIG_MAX_CPUS)
    (prid : s.cpu.cop0 .prid >>> 24 = BitVec.ofNat 32 cpu)
    (current : s.mem (L.slot cpu) = BitVec.ofNat 32 t) :
    Runs (loadTid L) s fun u => u.cpu.reg .k0 = BitVec.ofNat 32 t ∧ Clobbers [.k0, .k1] s u := by
  obtain ⟨room, aligned⟩ := L.slot_facts on
  have address : BitVec.ofNat 32 L.schedulerCurrentThread + BitVec.ofNat 32 cpu <<< 2 =
      BitVec.ofNat 32 (L.slot cpu) := by
    rw [element_address, Layout.slot]
    congr 1
    omega
  have ran : Runs (loadTid L) s fun u => u.cpu.reg .k0 = BitVec.ofNat 32 t := by
    simp only [loadTid, fetchCpuNum, List.cons_append, List.nil_append, runs_la, runs_mfc0,
      runs_srl, runs_sll, runs_addu, State.cpu_setReg, Cpu.reg_setReg, Cpu.cop0_setReg,
      reduceCtorEq, if_true, if_false, prid, address]
    refine Runs.lw (a := L.slot cpu) (o := 0) rfl ?_ (by omega) (by omega) ?_
    · simp [Cpu.reg_setReg]
    · simp [Cpu.reg_setReg, current]
  obtain ⟨u, ran, tid⟩ := ran
  exact ⟨u, ran, tid, (run_clobbers rfl ran).mono (by
    simp [loadTid, fetchCpuNum, Instr.target, Instr.la])⟩

theorem row_address (L : Layout) (t : Nat) :
    BitVec.ofNat 32 t <<< 6 + BitVec.ofNat 32 L.threadTable = BitVec.ofNat 32 (L.row t) := by
  rw [BitVec.add_comm, element_address, Layout.row, rowSize]
  congr 1
  omega

theorem userStack_run (on : cpu < CONFIG_MAX_CPUS) (real : t < CONFIG_MAX_THREADS)
    (prid : s.cpu.cop0 .prid >>> 24 = BitVec.ofNat 32 cpu)
    (current : s.mem (L.slot cpu) = BitVec.ofNat 32 t) {p : Nat}
    (context : s.mem (L.row t) = BitVec.ofNat 32 p) (room : p + contextSize ≤ 2 ^ 32)
    (aligned : p % 4 = 0) :
    Runs (userStack L) s fun u => u.cpu.reg .k0 = s.mem (p + 104) ∧ Clobbers [.k0, .k1] s u := by
  obtain ⟨low, word⟩ := L.row_facts real
  rw [userStack, List.append_assoc, runs_append]
  obtain ⟨v, ran, tid, kept⟩ := loadTid_run on prid current
  refine ⟨v, ran, ?_⟩
  have rest : Runs (loadRow L ++ [.addu .k1 .k0 .k1, .lw .k1 0 .k1, .nop, .lw .k0 104 .k1]) v
      fun u => u.cpu.reg .k0 = s.mem (p + 104) := by
    simp only [loadRow, List.cons_append, List.nil_append, runs_la, runs_sll, runs_addu,
      State.cpu_setReg, Cpu.reg_setReg, reduceCtorEq, if_true, if_false, tid, row_address]
    refine Runs.lw (a := L.row t) (o := 0) rfl (by simp [Cpu.reg_setReg]) (by omega) (by omega) ?_
    rw [runs_nop]
    unfold contextSize at room
    refine Runs.lw (a := p) (o := 104) rfl ?_ (by omega) (by omega) ?_
    · simp [Cpu.reg_setReg, kept.mem, context]
    · simp [Cpu.reg_setReg, kept.mem]
  obtain ⟨u, ran', top⟩ := rest
  refine ⟨u, ran', top, ?_⟩
  refine (kept.trans (run_clobbers rfl ran')).mono ?_
  simp [loadRow, Instr.target, Instr.la]

/-- The registers with their offsets in a context. -/
def contextOffsets : List (Reg × Nat) := contextRegs.zipIdx.map fun x => (x.1, 4 * x.2)

theorem contextOffsets_facts : ∀ x ∈ contextOffsets, x.2 % 4 = 0 ∧ x.2 < 116 := by decide

theorem contextReg_mem : ∀ i : Fin 29, (contextReg i, 4 * i.val) ∈ contextOffsets := by decide

theorem cswitchContextSave_eq : cswitchContextSave = stores .k0 contextOffsets ++
    [.mfhi .t1, .sw .t1 116 .k0, .mflo .t1, .sw .t1 120 .k0, .mfc0 .t1 .epc, .sw .t1 124 .k0,
      .mfc0 .t1 .status, .andi .t1 .t1 0xff11, .sw .t1 128 .k0] := rfl

/-- **`_cswitch_context_save`** writes the interrupted context and nothing else. -/
theorem cswitchContextSave_run {f : Nat} (at_k0 : s.cpu.reg .k0 = BitVec.ofNat 32 f)
    (aligned : f % 4 = 0) (room : f + contextSize ≤ 2 ^ 32) :
    Runs cswitchContextSave s fun u => contextAt u.mem f = Context.interrupted s.cpu ∧
      (∀ b, b < f ∨ f + 132 ≤ b → u.mem b = s.mem b) ∧ u.cpu.cop0 = s.cpu.cop0 ∧
      u.cpu.reg .k0 = BitVec.ofNat 32 f := by
  unfold contextSize at room
  have offsets : ∀ x ∈ contextOffsets, x.2 % 4 = 0 ∧ f + x.2 < 2 ^ 32 := by
    intro x mem
    have := contextOffsets_facts x mem
    omega
  rw [cswitchContextSave_eq, runs_append]
  refine ⟨_, run_stores aligned offsets at_k0, ?_⟩
  beta_reduce
  rw [runs_mfhi]
  refine Runs.sw (a := f) (o := 116) rfl ?_ (by omega) (by omega) ?_
  · simpa [Cpu.reg_setReg] using at_k0
  rw [runs_mflo]
  refine Runs.sw (a := f) (o := 120) rfl ?_ (by omega) (by omega) ?_
  · simpa [Cpu.reg_setReg] using at_k0
  rw [runs_mfc0]
  refine Runs.sw (a := f) (o := 124) rfl ?_ (by omega) (by omega) ?_
  · simpa [Cpu.reg_setReg] using at_k0
  rw [runs_mfc0, runs_andi]
  refine Runs.sw (a := f) (o := 128) rfl ?_ (by omega) (by omega) ?_
  · simpa [Cpu.reg_setReg] using at_k0
  rw [runs_nil]
  refine ⟨?_, ?_, ?_, ?_⟩
  · ext1
    · funext i
      have := i.isLt
      have stays := @stored_mem s.cpu f contextOffsets s.mem (by decide) _ _
        (contextReg_mem i)
      simp only [contextAt, Context.interrupted, State.mem_store, State.mem_setReg]
      iterate 4 rw [Function.update_of_ne (by omega)]
      exact stays
    all_goals
      simp [contextAt, Context.interrupted, Cpu.reg_setReg, Function.update_apply]
  · intro b out
    simp only [State.mem_store, State.mem_setReg]
    iterate 4 rw [Function.update_of_ne (by omega)]
    refine stored_other s.cpu fun x mem => ?_
    have := contextOffsets_facts x mem
    omega
  · rfl
  · simpa [Cpu.reg_setReg] using at_k0

theorem cswitchR1_run (on : cpu < CONFIG_MAX_CPUS) (real : t < CONFIG_MAX_THREADS)
    (prid : s.cpu.cop0 .prid >>> 24 = BitVec.ofNat 32 cpu)
    (current : s.mem (L.slot cpu) = BitVec.ofNat 32 t) {f : Nat}
    (at_k0 : s.cpu.reg .k0 = BitVec.ofNat 32 f) (aligned : f % 4 = 0)
    (room : f + contextSize ≤ 2 ^ 32) :
    Runs (cswitchR1 L) s fun u => u.mem = Function.update s.mem (f + 132) (s.mem (L.row t)) ∧
      u.cpu.cop0 = s.cpu.cop0 ∧ u.cpu.reg .sp = BitVec.ofNat 32 f ∧
      u.cpu.reg .k0 = BitVec.ofNat 32 t <<< 6 ∧ u.cpu.reg .t1 = BitVec.ofNat 32 (L.row t) := by
  obtain ⟨low, word⟩ := L.row_facts real
  unfold contextSize at room
  rw [cswitchR1, List.append_assoc, List.append_assoc, List.cons_append, List.nil_append, runs_addu,
    runs_append]
  obtain ⟨v, ran, tid, kept⟩ := loadTid_run (s := s.setReg .sp (s.cpu.reg .k0 + s.cpu.reg .zero))
    on prid current
  refine ⟨v, ran, ?_⟩
  have sp : v.cpu.reg .sp = BitVec.ofNat 32 f := by
    rw [kept.reg .sp (by decide), State.cpu_setReg, Cpu.reg_setReg, if_neg (by decide), if_pos rfl,
      at_k0, Cpu.reg_zero]
    simp
  simp only [loadRow, List.cons_append, List.nil_append, runs_la, runs_sll, runs_addu,
    State.cpu_setReg, Cpu.reg_setReg, reduceCtorEq, if_true, if_false, tid, row_address]
  refine Runs.lw (a := L.row t) (o := 0) rfl (by simp [Cpu.reg_setReg]) (by omega) (by omega) ?_
  rw [runs_nop]
  refine Runs.sw (a := f) (o := 132) rfl (by simp [Cpu.reg_setReg, sp]) (by omega) (by omega) ?_
  rw [runs_nil]
  refine ⟨?_, kept.cop0, ?_, ?_, ?_⟩
  · simp [Cpu.reg_setReg, kept.mem]
  all_goals simp [Cpu.reg_setReg, sp]

/-- The exception code field of the cause. -/
def excCode (c : Cpu) : BitVec 32 := c.cop0 .cause >>> 2 &&& 0x1f

theorem exceptionCode_run (r : Reg) (real : r ≠ .zero) (s : State) :
    Runs (exceptionCode r) s fun u => u.cpu.reg r = excCode s.cpu ∧ Clobbers [r] s u := by
  have ran : Runs (exceptionCode r) s fun u => u.cpu.reg r = excCode s.cpu := by
    simp [exceptionCode, excCode, Cpu.reg_setReg, real]
  obtain ⟨u, ran, code⟩ := ran
  refine ⟨u, ran, code, (run_clobbers rfl ran).mono ?_⟩
  simp [exceptionCode, Instr.target]

theorem interruptStack_run (on : cpu < CONFIG_MAX_CPUS)
    (prid : s.cpu.cop0 .prid >>> 24 = BitVec.ofNat 32 cpu) :
    Runs (interruptStack L) s fun u => u.cpu.reg .sp = s.mem (L.stackSlot cpu) ∧
      Clobbers [.k0, .k1, .sp] s u := by
  obtain ⟨room, aligned⟩ := L.stackSlot_facts on
  have address : BitVec.ofNat 32 L.interruptStacks + BitVec.ofNat 32 cpu <<< 2 =
      BitVec.ofNat 32 (L.stackSlot cpu) := by
    rw [element_address, Layout.stackSlot]
    congr 1
    omega
  have ran : Runs (interruptStack L) s fun u => u.cpu.reg .sp = s.mem (L.stackSlot cpu) := by
    simp only [interruptStack, fetchCpuNum, List.cons_append, List.nil_append, runs_la, runs_mfc0,
      runs_srl, runs_sll, runs_addu, State.cpu_setReg, Cpu.reg_setReg, Cpu.cop0_setReg,
      reduceCtorEq, if_true, if_false, prid, address]
    refine Runs.lw (a := L.stackSlot cpu) (o := 0) rfl ?_ (by omega) (by omega) ?_
    · simp [Cpu.reg_setReg]
    · simp [Cpu.reg_setReg]
  obtain ⟨u, ran, sp⟩ := ran
  refine ⟨u, ran, sp, (run_clobbers rfl ran).mono ?_⟩
  simp [interruptStack, fetchCpuNum, Instr.target, Instr.la]

theorem cswitchStackOk_run (s : State) :
    Runs cswitchStackOk s fun u => u.mem = s.mem ∧
      u.cpu.cop0 = Function.update s.cpu.cop0 .status (s.cpu.cop0 .status &&& 0xffffffef) ∧
      u.cpu.reg .sp = s.cpu.reg .sp - 4 ∧ u.cpu.reg .a0 = excCode s.cpu ∧
      u.cpu.reg .t7 = 0x10 &&& s.cpu.cop0 .status := by
  have same : ∀ x : BitVec 32, x + BitVec.ofInt 32 (-4) = x - 4 := fun x => by
    rw [BitVec.sub_eq_add_neg]
    rfl
  simp only [cswitchStackOk, exceptionCode, excCode, List.cons_append, List.nil_append, runs_addiu,
    runs_mfc0, runs_li, runs_and, runs_mtc0, runs_srl, runs_andi, runs_nil, State.cpu_setReg,
    State.cpu_setCop0, State.mem_setReg, State.mem_setCop0, Cpu.reg_setReg, Cpu.reg_setCop0,
    Cpu.cop0_setReg, Cpu.cop0_setCop0, reduceCtorEq, if_true, if_false, same, true_and, and_true,
    Function.update_of_ne, ne_eq, not_false_eq_true]
  rfl

/-- Where the code finds the top of the stack that takes the context: in the stack pointer, or,
after user mode, in the context that the thread's pointer shows. -/
def stackTop (L : Layout) (s : State) (t : Nat) : BitVec 32 :=
  if s.cpu.cop0 .status &&& 0x10 = 0 then s.cpu.reg .sp
  else s.mem ((s.mem (L.row t)).toNat + 104)

/-- The handler that the code calls. -/
def handlerOf (c : Cpu) : Handler :=
  if excCode c = 0 then .interruptHandle
  else if c.cop0 .status &&& 0x10 = 0 then .kernelExceptionHandle
  else .userExceptionHandle

/-- What entering the kernel does: the context of the interrupted code is at `f`, linked to
the context before it, and the thread's pointer shows it, unless that is the idle thread's.
Nothing else in memory changes. -/
structure Entered (L : Layout) (cpu t f : Nat) (s u : State) : Prop where
  saved : contextAt u.mem f = Context.interrupted s.cpu
  linked : u.mem (f + 132) = s.mem (L.row t)
  pointer : u.mem (L.row t) = if t = IDLE_THREAD_TID then s.mem (L.row t) else BitVec.ofNat 32 f
  other : ∀ b, b < f ∨ f + contextSize ≤ b → b ≠ L.row t → u.mem b = s.mem b
  cop0 : u.cpu.cop0 = Function.update s.cpu.cop0 .status (s.cpu.cop0 .status &&& 0xffffffef)
  sp : u.cpu.reg .sp =
    (if excCode s.cpu = 0 then s.mem (L.stackSlot cpu) else BitVec.ofNat 32 f) - 4
  argument : u.cpu.reg .a0 = if excCode s.cpu = 0 then s.cpu.cop0 .cause else excCode s.cpu

/-- The frame is apart from the words that the code reads and writes. -/
structure FrameApart (L : Layout) (cpu t f : Nat) : Prop where
  slot : L.slot cpu < f ∨ f + contextSize ≤ L.slot cpu
  row : L.row t < f ∨ f + contextSize ≤ L.row t
  stackSlot : L.stackSlot cpu < f ∨ f + contextSize ≤ L.stackSlot cpu
  rows : L.row t ≠ L.slot cpu ∧ L.row t ≠ L.stackSlot cpu

theorem tid_zero {t : Nat} (real : t < CONFIG_MAX_THREADS) :
    BitVec.ofNat 32 t <<< 6 = 0 ↔ t = 0 := by
  unfold CONFIG_MAX_THREADS at real
  rw [← BitVec.toNat_inj, BitVec.toNat_shiftLeft, BitVec.toNat_ofNat, Nat.shiftLeft_eq]
  simp only [BitVec.ofNat_eq_ofNat, BitVec.toNat_ofNat]
  omega

/-- **`_cswitch_switch`**, up to the handler. -/
theorem cswitchSwitch_run (on : cpu < CONFIG_MAX_CPUS) (real : t < CONFIG_MAX_THREADS)
    (prid : s.cpu.cop0 .prid >>> 24 = BitVec.ofNat 32 cpu)
    (current : s.mem (L.slot cpu) = BitVec.ofNat 32 t) {f p : Nat}
    (context : s.mem (L.row t) = BitVec.ofNat 32 p)
    (valid : s.cpu.cop0 .status &&& 0x10 ≠ 0 → p + contextSize ≤ 2 ^ 32 ∧ p % 4 = 0)
    (top : stackTop L s t = BitVec.ofNat 32 (f + contextSize)) (aligned : f % 4 = 0)
    (room : f + contextSize < 2 ^ 32) (apart : FrameApart L cpu t f) :
    ∃ u, cswitchSwitch L s = some (u, handlerOf s.cpu) ∧ Entered L cpu t f s u := by
  -- The top of the stack, in `k0`.
  obtain ⟨s₁, ran₁, kernel, kept₁⟩ : Runs checkUserMode s fun u =>
      u.cpu.reg .k0 = s.cpu.cop0 .status &&& 0x10 ∧ Clobbers [.k0] s u := by
    have ran : Runs checkUserMode s fun u => u.cpu.reg .k0 = s.cpu.cop0 .status &&& 0x10 := by
      simp [checkUserMode, Cpu.reg_setReg]
    obtain ⟨u, ran, value⟩ := ran
    exact ⟨u, ran, value, (run_clobbers rfl ran).mono (by simp [checkUserMode, Instr.target])⟩
  obtain ⟨s₂, ran₂, top₂, kept₂⟩ : ∃ u, takeStack L s₁ = some u ∧
      u.cpu.reg .k0 = stackTop L s t ∧ Clobbers [.k0, .k1] s u := by
    rw [takeStack, kernel, stackTop]
    split
    · refine ⟨s₁.setReg .k0 (s₁.cpu.reg .sp + 0), by simp [notUsermodeException, run, Instr.exec],
        ?_, (kept₁.trans (clobbers_setReg _ _ _)).mono (by simp)⟩
      rw [State.cpu_setReg, Cpu.reg_setReg, if_neg (by decide), if_pos rfl,
        kept₁.reg .sp (by decide)]
      exact BitVec.add_zero _
    · rename_i user
      obtain ⟨fits, word⟩ := valid user
      obtain ⟨u, ran, value, kept⟩ := userStack_run (s := s₁) (L := L) (t := t) (p := p)
        on real (by rw [kept₁.cop0, prid]) (by rw [kept₁.mem, current])
        (by rw [kept₁.mem, context]) fits word
      unfold contextSize at fits
      refine ⟨u, ran, ?_, (kept₁.trans kept).mono (by simp)⟩
      rw [value, kept₁.mem, context, BitVec.toNat_ofNat, Nat.mod_eq_of_lt (by omega)]
  obtain ⟨s₃, ran₃, frame, kept₃⟩ : Runs usermodeException s₂ fun u =>
      u.cpu.reg .k0 = BitVec.ofNat 32 f ∧ Clobbers [.k0] s₂ u := by
    have ran : Runs usermodeException s₂ fun u => u.cpu.reg .k0 = BitVec.ofNat 32 f := by
      simp only [usermodeException, runs_addiu, runs_nil, State.cpu_setReg, Cpu.reg_setReg,
        reduceCtorEq, if_true, if_false, top₂, top]
      unfold contextSize at room ⊢
      apply BitVec.eq_of_toNat_eq
      rw [BitVec.toNat_add, BitVec.toNat_ofNat, BitVec.toNat_ofNat]
      have minus : (BitVec.ofInt 32 (-136)).toNat = 2 ^ 32 - 136 := by simp
      rw [minus]
      omega
    obtain ⟨u, ran, value⟩ := ran
    exact ⟨u, ran, value, (run_clobbers rfl ran).mono (by simp [usermodeException, Instr.target])⟩
  have before := kept₂.trans kept₃
  have saving : Context.interrupted s₃.cpu = Context.interrupted s.cpu := by
    have regs : ∀ i, contextReg i ∉ [Reg.k0, Reg.k1] ++ [Reg.k0] := by decide
    ext1
    · funext i
      exact before.reg _ (regs i)
    · exact before.hi
    · exact before.lo
    · simp only [Context.interrupted, before.cop0]
    · simp only [Context.interrupted, before.cop0]
  -- The context, and the pointers.
  obtain ⟨s₄, ran₄, saved, other₄, cop₄, at_k0⟩ := cswitchContextSave_run frame aligned room.le
  unfold contextSize at room
  have mem₃ : s₃.mem = s.mem := before.mem
  have apartRow := apart.row
  have apartSlot := apart.slot
  have apartStack := apart.stackSlot
  unfold contextSize at apartRow apartSlot apartStack
  have row₄ : s₄.mem (L.row t) = s.mem (L.row t) := by
    rw [other₄ _ (by omega), mem₃]
  obtain ⟨s₅, ran₅, mem₅, cop₅, sp₅, tid₅, t1₅⟩ := cswitchR1_run (L := L) (s := s₄) on real
    (by rw [cop₄, before.cop0, prid]) (by rw [other₄ _ (by omega), mem₃, current]) at_k0 aligned
    room.le
  obtain ⟨low, word⟩ := L.row_facts real
  obtain ⟨s₆, ran₆, mem₆, cpu₆⟩ : ∃ u, linkContext s₅ = some u ∧ u.mem = (if t = 0 then s₅.mem else
        Function.update s₅.mem (L.row t) (BitVec.ofNat 32 f)) ∧ u.cpu = s₅.cpu := by
    rw [linkContext]
    by_cases idle : t = 0
    · exact ⟨s₅, by rw [if_pos (by rw [tid₅, tid_zero real, idle])], by rw [if_pos idle], rfl⟩
    · refine ⟨s₅.store (L.row t + 0) (s₅.cpu.reg .sp), ?_, ?_, rfl⟩
      · rw [if_neg (by rw [tid₅, tid_zero real]; exact idle), setContext, run]
        rw [show (0 : Int) = ((0 : Nat) : Int) from rfl, exec_sw t1₅ (by omega) (by omega)]
        rfl
      · rw [if_neg idle, State.mem_store, sp₅, Nat.add_zero]
  -- The stack of the handler.
  obtain ⟨s₇, ran₇, code₇, kept₇⟩ := exceptionCode_run .k1 (by decide) s₆
  have cause : ∀ {u : State}, u.cpu.cop0 = s.cpu.cop0 → excCode u.cpu = excCode s.cpu :=
    fun same => by rw [excCode, same, excCode]
  have cop₆ : s₆.cpu.cop0 = s.cpu.cop0 := by rw [cpu₆, cop₅, cop₄, before.cop0]
  have stack₆ : s₆.mem (L.stackSlot cpu) = s.mem (L.stackSlot cpu) := by
    have moved : s₅.mem (L.stackSlot cpu) = s.mem (L.stackSlot cpu) := by
      rw [mem₅, Function.update_of_ne (by omega), other₄ _ (by omega), mem₃]
    rw [mem₆]
    split
    · exact moved
    · rw [Function.update_of_ne apart.rows.2.symm, moved]
  obtain ⟨s₈, ran₈, sp₈, kept₈⟩ : ∃ u, handlerStack L s₇ = some u ∧ u.cpu.reg .sp = (if excCode s.cpu = 0 then
        s.mem (L.stackSlot cpu) else BitVec.ofNat 32 f) ∧ Clobbers [.k0, .k1, .sp] s₇ u := by
    rw [handlerStack, code₇, cause cop₆]
    by_cases interrupt : excCode s.cpu = 0
    · obtain ⟨u, ran, sp, kept⟩ := interruptStack_run (L := L) (s := s₇) on
        (by rw [kept₇.cop0, cop₆, prid])
      refine ⟨u, by rw [if_neg (by simpa using interrupt)]; exact ran, ?_, kept⟩
      rw [if_pos interrupt, sp, kept₇.mem, stack₆]
    · refine ⟨s₇, by rw [if_pos interrupt], ?_, .refl _ _⟩
      rw [if_neg interrupt, kept₇.reg .sp (by decide), cpu₆, sp₅]
  obtain ⟨s₉, ran₉, mem₉, cop₉, sp₉, a0₉, t7₉⟩ := cswitchStackOk_run s₈
  have cop₈ : s₈.cpu.cop0 = s.cpu.cop0 := by rw [kept₈.cop0, kept₇.cop0, cop₆]
  rw [cause cop₈] at a0₉
  rw [cop₈] at cop₉ t7₉
  rw [BitVec.and_comm] at t7₉
  have mem : s₉.mem = s₆.mem := by rw [mem₉, kept₈.mem, kept₇.mem]
  have entered : ∀ u : State, u.mem = s₉.mem → u.cpu.cop0 = s₉.cpu.cop0 →
      u.cpu.reg .sp = s₉.cpu.reg .sp →
      (u.cpu.reg .a0 = if excCode s.cpu = 0 then s.cpu.cop0 .cause else excCode s.cpu) →
      Entered L cpu t f s u := by
    intro u same cop sp argument
    have off : ∀ b, b ≠ L.row t → u.mem b = s₅.mem b := by
      intro b ne
      rw [same, mem, mem₆]
      split
      · rfl
      · rw [Function.update_of_ne ne]
    refine ⟨?_, ?_, ?_, ?_, cop.trans cop₉, by rw [sp, sp₉, sp₈], argument⟩
    · rw [← saving, ← saved]
      apply contextAt_congr
      intro b first last
      rw [off b (by omega), mem₅, Function.update_of_ne (by omega)]
    · rw [off _ (by omega), mem₅, Function.update_self, row₄]
    · rw [same, mem, mem₆]
      by_cases idle : t = 0
      · subst idle
        rw [if_pos rfl, if_pos (by rfl), mem₅, Function.update_of_ne (by omega), row₄]
      · rw [if_neg idle, if_neg (by simpa [IDLE_THREAD_TID] using idle), Function.update_self]
    · intro b out ne
      unfold contextSize at out
      rw [off b ne, mem₅, Function.update_of_ne (by omega), other₄ b (by omega), mem₃]
  -- The handler.
  have chain : cswitchSwitch L s = callHandler s₉ := by
    simp only [cswitchSwitch, Option.bind_eq_bind]
    rw [ran₁, Option.bind_some, ran₂, Option.bind_some, ran₃, Option.bind_some, ran₄,
      Option.bind_some, ran₅, Option.bind_some, ran₆, Option.bind_some, ran₇, Option.bind_some,
      ran₈, Option.bind_some, ran₉, Option.bind_some]
  rw [chain, callHandler, handlerOf, a0₉, t7₉]
  by_cases interrupt : excCode s.cpu = 0
  · rw [if_pos interrupt, if_pos interrupt]
    have loads : run [.mfc0 .a0 .cause] s₉ = some (s₉.setReg .a0 (s₉.cpu.cop0 .cause)) := rfl
    rw [loads, Option.map_some]
    refine ⟨_, rfl, entered _ rfl rfl ?_ ?_⟩
    · rw [State.cpu_setReg, Cpu.reg_setReg_of_ne _ (by decide)]
    · rw [State.cpu_setReg, Cpu.reg_setReg, if_neg (by decide), if_pos rfl, if_pos interrupt, cop₉,
        Function.update_of_ne (by decide)]
  · rw [if_neg interrupt, if_neg interrupt]
    refine ⟨s₉, ?_, entered _ rfl rfl rfl (by rw [a0₉, if_neg interrupt])⟩
    split <;> rfl

/-! ## Leaving the kernel -/

theorem popContext_run (on : cpu < CONFIG_MAX_CPUS) (real : t < CONFIG_MAX_THREADS)
    (prid : s.cpu.cop0 .prid >>> 24 = BitVec.ofNat 32 cpu)
    (current : s.mem (L.slot cpu) = BitVec.ofNat 32 t) {p : Nat}
    (context : s.mem (L.row t) = BitVec.ofNat 32 p) (aligned : p % 4 = 0)
    (room : p + contextSize ≤ 2 ^ 32) :
    Runs (popContext L) s fun u => u.mem = Function.update s.mem (L.row t) (s.mem (p + 132)) ∧
      u.cpu.cop0 = s.cpu.cop0 ∧ u.cpu.reg .k0 = BitVec.ofNat 32 p := by
  obtain ⟨low, word⟩ := L.row_facts real
  unfold contextSize at room
  rw [popContext, List.append_assoc, List.append_assoc, runs_append]
  obtain ⟨v, ran, tid, kept⟩ := loadTid_run on prid current
  refine ⟨v, ran, ?_⟩
  simp only [loadRow, List.cons_append, List.nil_append, runs_nop, runs_la, runs_sll, runs_addu,
    State.cpu_setReg, Cpu.reg_setReg, reduceCtorEq, if_true, if_false, tid, row_address]
  refine Runs.lw (a := L.row t) (o := 0) rfl (by simp [Cpu.reg_setReg]) (by omega) (by omega) ?_
  rw [runs_nop]
  refine Runs.lw (a := p) (o := 132) rfl ?_ (by omega) (by omega) ?_
  · simp [Cpu.reg_setReg, kept.mem, context]
  rw [runs_nop]
  refine Runs.sw (a := L.row t) (o := 0) rfl (by simp [Cpu.reg_setReg]) (by omega) (by omega) ?_
  rw [runs_nil]
  refine ⟨?_, kept.cop0, ?_⟩
  · simp [Cpu.reg_setReg, kept.mem]
  · simp [Cpu.reg_setReg, kept.mem, context]

theorem cswitchContextRestore_eq : cswitchContextRestore =
    [.lw .t1 116 .k0, .nop, .mthi .t1, .lw .t1 120 .k0, .nop, .mtlo .t1, .lw .t1 124 .k0, .nop,
      .mtc0 .t1 .epc, .lw .t1 128 .k0, .nop, .mfc0 .t2 .status, .li .t3 0xffff00ee,
      .and .t2 .t2 .t3, .or .t1 .t2 .t1, .mtc0 .t1 .status] ++ loads .k0 contextOffsets := rfl

/-- **`_cswitch_context_restore`** loads a context and leaves memory alone. -/
theorem cswitchContextRestore_run {p : Nat} (at_k0 : s.cpu.reg .k0 = BitVec.ofNat 32 p)
    (aligned : p % 4 = 0) (room : p + contextSize ≤ 2 ^ 32) :
    Runs cswitchContextRestore s fun u => u.mem = s.mem ∧
      (∀ i, u.cpu.reg (contextReg i) = (contextAt s.mem p).cpuRegs i) ∧
      u.cpu.hi = (contextAt s.mem p).hi ∧ u.cpu.lo = (contextAt s.mem p).lo ∧
      u.cpu.cop0 = Function.update (Function.update s.cpu.cop0 .epc (contextAt s.mem p).pc) .status
        (s.cpu.cop0 .status &&& 0xffff00ee ||| (contextAt s.mem p).status) := by
  unfold contextSize at room
  have offsets : ∀ x ∈ contextOffsets, x.2 % 4 = 0 ∧ p + x.2 < 2 ^ 32 := by
    intro x mem
    have := contextOffsets_facts x mem
    omega
  rw [cswitchContextRestore_eq, runs_append]
  refine Runs.lw (a := p) (o := 116) rfl at_k0 (by omega) (by omega) ?_
  rw [runs_nop, runs_mthi]
  refine Runs.lw (a := p) (o := 120) rfl (by simpa [Cpu.reg_setReg] using at_k0) (by omega)
    (by omega) ?_
  rw [runs_nop, runs_mtlo]
  refine Runs.lw (a := p) (o := 124) rfl (by simpa [Cpu.reg_setReg] using at_k0) (by omega)
    (by omega) ?_
  rw [runs_nop, runs_mtc0]
  refine Runs.lw (a := p) (o := 128) rfl (by simpa [Cpu.reg_setReg] using at_k0) (by omega)
    (by omega) ?_
  rw [runs_nop, runs_mfc0, runs_li, runs_and, runs_or, runs_mtc0, runs_nil]
  refine ⟨_, run_loads (a := p) aligned offsets (by decide) ?_, ?_⟩
  · simpa [Cpu.reg_setReg] using at_k0
  · refine ⟨rfl, ?_, ?_, ?_, ?_⟩
    · intro i
      rw [loaded_mem (by decide) (by revert i; decide) (contextReg_mem i)]
      rfl
    · rw [loaded_hi]
      simp [contextAt, State.setHi, State.setLo, State.setReg, State.setCop0, Cpu.reg_setReg]
    · rw [loaded_lo]
      simp [contextAt, State.setHi, State.setLo, State.setReg, State.setCop0, Cpu.reg_setReg]
    · rw [loaded_cop0]
      simp [contextAt, Cpu.reg_setReg]

theorem status_restored (status saved : BitVec 32) :
    (status &&& 0xffff00ee ||| saved) &&& 0xfffffffd &&& 0xff11 = saved &&& 0xff11 := by
  have first : (0xfffffffd : BitVec 32) &&& 0xff11 = 0xff11 := by decide
  have second : (0xffff00ee : BitVec 32) &&& 0xff11 = 0 := by decide
  rw [BitVec.and_assoc, first, BitVec.and_or_distrib_right, BitVec.and_assoc, second]
  simp

/-- What the restored status is, outside the bits of a context. -/
theorem eret_runs {c d : Cpu} {x : Context} {mem : Words} {p : Nat}
    (regs : ∀ i, d.reg (contextReg i) = (contextAt mem p).cpuRegs i)
    (hi : d.hi = (contextAt mem p).hi) (lo : d.lo = (contextAt mem p).lo)
    (cop0 : d.cop0 = Function.update (Function.update c.cop0 .epc (contextAt mem p).pc) .status
      (c.cop0 .status &&& 0xffff00ee ||| (contextAt mem p).status))
    (stored : contextAt mem p = x) (masked : x.status &&& 0xff11 = x.status) :
    Context.running (eret d) = x := by
  subst stored
  ext1
  · funext i
    exact regs i
  · exact hi
  · exact lo
  · simp [Context.running, eret, cop0]
  · simp only [Context.running, eret, Cpu.cop0_setCop0, Function.update_self, cop0]
    rw [status_restored, masked]

/-- **`_handle_finished`** gives the CPU the newest context of the thread that is current by
then, and that thread the context before it. -/
theorem handleFinished_run (on : cpu < CONFIG_MAX_CPUS) (real : t < CONFIG_MAX_THREADS)
    (prid : s.cpu.cop0 .prid >>> 24 = BitVec.ofNat 32 cpu)
    (current : s.mem (L.slot cpu) = BitVec.ofNat 32 t) {p : Nat} {x : Context}
    (context : s.mem (L.row t) = BitVec.ofNat 32 p) (aligned : p % 4 = 0)
    (room : p + contextSize ≤ 2 ^ 32) (apart : L.row t < p ∨ p + contextSize ≤ L.row t)
    (stored : contextAt s.mem p = x) (masked : x.status &&& 0xff11 = x.status) :
    ∃ u, handleFinished L s = some u ∧ Context.running u.cpu = x ∧
      u.mem = Function.update s.mem (L.row t) (s.mem (p + 132)) ∧
      u.cpu.cop0 .prid = s.cpu.cop0 .prid ∧ u.cpu.cop0 .status &&& 0x2 = 0 := by
  obtain ⟨v, ran, mem, cop0, at_k0⟩ := popContext_run on real prid current context aligned room
  obtain ⟨w, ran', mem', regs, hi, lo, cop0'⟩ := cswitchContextRestore_run at_k0 aligned room
  have stored' : contextAt v.mem p = x := by
    rw [← stored, mem]
    apply contextAt_congr
    intro b first last
    unfold contextSize at apart
    exact Function.update_of_ne (by omega) _ _
  refine ⟨{ w with cpu := eret w.cpu }, ?_, eret_runs regs hi lo cop0' stored' masked,
    mem'.trans mem, ?_, ?_⟩
  · simp only [handleFinished, Option.bind_eq_bind]
    rw [ran, Option.bind_some, ran', Option.bind_some]
  · simp [eret, cop0', cop0]
  · have clears : (0xfffffffd : BitVec 32) &&& 0x2 = 0 := by decide
    simp only [eret, Cpu.cop0_setCop0, Function.update_self]
    rw [BitVec.and_assoc, clears]
    exact BitVec.and_zero

end Blocks

end Buenos.Kernel
