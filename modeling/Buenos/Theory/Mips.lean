/-
# Theory.Mips -- straight-line MIPS32 code

The registers of one CPU, a memory of words, and the instructions that hand-written
kernel code is made of, between two branches.  A branch is taken in the Lean text of the
program that is modelled; what is here is the code from one label to the next.

An address that is not a multiple of four is an address error, and the code has no result.
A memory is indexed by the addresses of its words, so nothing overlaps.

`run_clobbers` says what a block without stores leaves alone.  `run_stores` and `run_loads`
are the two rules for the long blocks: a block that stores registers relative to one base,
and a block that loads them back.
-/
import Mathlib.Data.BitVec
import Mathlib.Data.List.Nodup

namespace Buenos.Theory.Mips

set_option autoImplicit false

/-- The general registers. -/
inductive Reg where
  | zero | AT | v0 | v1 | a0 | a1 | a2 | a3
  | t0 | t1 | t2 | t3 | t4 | t5 | t6 | t7
  | s0 | s1 | s2 | s3 | s4 | s5 | s6 | s7
  | t8 | t9 | k0 | k1 | gp | sp | fp | ra
  deriving DecidableEq, Repr

/-- The registers of co-processor 0 that a kernel's entry code touches. -/
inductive Cop0 where
  | status | cause | epc | prid
  deriving DecidableEq, Repr

structure Cpu where
  gpr : Reg → BitVec 32
  hi : BitVec 32
  lo : BitVec 32
  cop0 : Cop0 → BitVec 32
  pc : BitVec 32

/-- The memory, by the addresses of its words. -/
abbrev Words := Nat → BitVec 32

structure State where
  cpu : Cpu
  mem : Words

inductive Instr where
  | lw (rt : Reg) (offset : Int) (base : Reg)
  | sw (rt : Reg) (offset : Int) (base : Reg)
  | li (rt : Reg) (value : BitVec 32)
  | addu (rd rs rt : Reg)
  | addiu (rt rs : Reg) (imm : Int)
  | and (rd rs rt : Reg)
  | andi (rt rs : Reg) (imm : BitVec 16)
  | or (rd rs rt : Reg)
  | sll (rd rt : Reg) (sa : Nat)
  | srl (rd rt : Reg) (sa : Nat)
  | multu (rs rt : Reg)
  | mfhi (rd : Reg)
  | mflo (rd : Reg)
  | mthi (rs : Reg)
  | mtlo (rs : Reg)
  | mfc0 (rt : Reg) (c : Cop0)
  | mtc0 (rt : Reg) (c : Cop0)
  | nop
  deriving DecidableEq, Repr

namespace Cpu

/-- Register 0 reads as zero. -/
def reg (c : Cpu) (r : Reg) : BitVec 32 := if r = .zero then 0 else c.gpr r

def setReg (c : Cpu) (r : Reg) (v : BitVec 32) : Cpu := { c with gpr := Function.update c.gpr r v }

def setCop0 (c : Cpu) (r : Cop0) (v : BitVec 32) : Cpu :=
  { c with cop0 := Function.update c.cop0 r v }

@[simp] theorem reg_zero (c : Cpu) : c.reg .zero = 0 := rfl

theorem reg_setReg (c : Cpu) (r x : Reg) (v : BitVec 32) :
    (c.setReg r v).reg x = if x = .zero then 0 else if x = r then v else c.reg x := by
  unfold reg setReg
  by_cases first : x = .zero
  · simp [first]
  · by_cases same : x = r
    · subst same
      simp [first]
    · simp [first, same]

theorem reg_setReg_of_ne (c : Cpu) {r x : Reg} (other : x ≠ r) (v : BitVec 32) :
    (c.setReg r v).reg x = c.reg x := by
  rw [reg_setReg, if_neg other]
  split
  · rename_i first
    rw [first, reg_zero]
  · rfl

@[simp] theorem hi_setReg (c : Cpu) (r : Reg) (v : BitVec 32) : (c.setReg r v).hi = c.hi := rfl
@[simp] theorem lo_setReg (c : Cpu) (r : Reg) (v : BitVec 32) : (c.setReg r v).lo = c.lo := rfl
@[simp] theorem pc_setReg (c : Cpu) (r : Reg) (v : BitVec 32) : (c.setReg r v).pc = c.pc := rfl
@[simp] theorem cop0_setReg (c : Cpu) (r : Reg) (v : BitVec 32) :
    (c.setReg r v).cop0 = c.cop0 := rfl

@[simp] theorem reg_setCop0 (c : Cpu) (r : Cop0) (x : Reg) (v : BitVec 32) :
    (c.setCop0 r v).reg x = c.reg x := rfl
@[simp] theorem hi_setCop0 (c : Cpu) (r : Cop0) (v : BitVec 32) : (c.setCop0 r v).hi = c.hi := rfl
@[simp] theorem lo_setCop0 (c : Cpu) (r : Cop0) (v : BitVec 32) : (c.setCop0 r v).lo = c.lo := rfl
@[simp] theorem pc_setCop0 (c : Cpu) (r : Cop0) (v : BitVec 32) : (c.setCop0 r v).pc = c.pc := rfl

@[simp] theorem cop0_setCop0 (c : Cpu) (r : Cop0) (v : BitVec 32) :
    (c.setCop0 r v).cop0 = Function.update c.cop0 r v := rfl

end Cpu

namespace State

/-- The address that `offset(base)` means. -/
def address (s : State) (base : Reg) (offset : Int) : Nat :=
  (s.cpu.reg base + BitVec.ofInt 32 offset).toNat

def setReg (s : State) (r : Reg) (v : BitVec 32) : State := { s with cpu := s.cpu.setReg r v }

def setCop0 (s : State) (r : Cop0) (v : BitVec 32) : State := { s with cpu := s.cpu.setCop0 r v }

def setHi (s : State) (v : BitVec 32) : State := { s with cpu := { s.cpu with hi := v } }

def setLo (s : State) (v : BitVec 32) : State := { s with cpu := { s.cpu with lo := v } }

def store (s : State) (a : Nat) (v : BitVec 32) : State :=
  { s with mem := Function.update s.mem a v }

@[simp] theorem cpu_setReg (s : State) (r : Reg) (v : BitVec 32) :
    (s.setReg r v).cpu = s.cpu.setReg r v := rfl
@[simp] theorem mem_setReg (s : State) (r : Reg) (v : BitVec 32) :
    (s.setReg r v).mem = s.mem := rfl
@[simp] theorem cpu_setCop0 (s : State) (r : Cop0) (v : BitVec 32) :
    (s.setCop0 r v).cpu = s.cpu.setCop0 r v := rfl
@[simp] theorem mem_setCop0 (s : State) (r : Cop0) (v : BitVec 32) :
    (s.setCop0 r v).mem = s.mem := rfl
@[simp] theorem mem_setHi (s : State) (v : BitVec 32) : (s.setHi v).mem = s.mem := rfl
@[simp] theorem mem_setLo (s : State) (v : BitVec 32) : (s.setLo v).mem = s.mem := rfl
@[simp] theorem reg_setHi (s : State) (v : BitVec 32) (r : Reg) :
    (s.setHi v).cpu.reg r = s.cpu.reg r := rfl
@[simp] theorem reg_setLo (s : State) (v : BitVec 32) (r : Reg) :
    (s.setLo v).cpu.reg r = s.cpu.reg r := rfl
@[simp] theorem hi_setHi (s : State) (v : BitVec 32) : (s.setHi v).cpu.hi = v := rfl
@[simp] theorem hi_setLo (s : State) (v : BitVec 32) : (s.setLo v).cpu.hi = s.cpu.hi := rfl
@[simp] theorem lo_setLo (s : State) (v : BitVec 32) : (s.setLo v).cpu.lo = v := rfl
@[simp] theorem cop0_setHi (s : State) (v : BitVec 32) : (s.setHi v).cpu.cop0 = s.cpu.cop0 := rfl
@[simp] theorem cop0_setLo (s : State) (v : BitVec 32) : (s.setLo v).cpu.cop0 = s.cpu.cop0 := rfl
@[simp] theorem cpu_store (s : State) (a : Nat) (v : BitVec 32) : (s.store a v).cpu = s.cpu := rfl
@[simp] theorem mem_store (s : State) (a : Nat) (v : BitVec 32) :
    (s.store a v).mem = Function.update s.mem a v := rfl

end State

/-- `la` of a symbol. -/
def Instr.la (rt : Reg) (symbol : Nat) : Instr := .li rt (BitVec.ofNat 32 symbol)

/-- One instruction. -/
def Instr.exec (s : State) : Instr → Option State
  | .lw rt offset base =>
      if s.address base offset % 4 = 0 then some (s.setReg rt (s.mem (s.address base offset)))
      else none
  | .sw rt offset base =>
      if s.address base offset % 4 = 0 then some (s.store (s.address base offset) (s.cpu.reg rt))
      else none
  | .li rt value => some (s.setReg rt value)
  | .addu rd rs rt => some (s.setReg rd (s.cpu.reg rs + s.cpu.reg rt))
  | .addiu rt rs imm => some (s.setReg rt (s.cpu.reg rs + BitVec.ofInt 32 imm))
  | .and rd rs rt => some (s.setReg rd (s.cpu.reg rs &&& s.cpu.reg rt))
  | .andi rt rs imm => some (s.setReg rt (s.cpu.reg rs &&& imm.setWidth 32))
  | .or rd rs rt => some (s.setReg rd (s.cpu.reg rs ||| s.cpu.reg rt))
  | .sll rd rt sa => some (s.setReg rd (s.cpu.reg rt <<< sa))
  | .srl rd rt sa => some (s.setReg rd (s.cpu.reg rt >>> sa))
  | .multu rs rt =>
      let product := (s.cpu.reg rs).setWidth 64 * (s.cpu.reg rt).setWidth 64
      some ((s.setHi ((product >>> 32).setWidth 32)).setLo (product.setWidth 32))
  | .mfhi rd => some (s.setReg rd s.cpu.hi)
  | .mflo rd => some (s.setReg rd s.cpu.lo)
  | .mthi rs => some (s.setHi (s.cpu.reg rs))
  | .mtlo rs => some (s.setLo (s.cpu.reg rs))
  | .mfc0 rt c => some (s.setReg rt (s.cpu.cop0 c))
  | .mtc0 rt c => some (s.setCop0 c (s.cpu.reg rt))
  | .nop => some s

/-- A block of code, from one label to the next branch. -/
def run : List Instr → State → Option State
  | [], s => some s
  | i :: code, s => (i.exec s).bind (run code)

theorem run_append (first second : List Instr) (s : State) :
    run (first ++ second) s = (run first s).bind (run second) := by
  induction first generalizing s with
  | nil => rfl
  | cons i code ih =>
      rw [List.cons_append, run, run, Option.bind_assoc]
      exact congrArg _ (funext ih)

/-- The block runs to its end, in a state that satisfies `Q`. -/
def Runs (code : List Instr) (s : State) (Q : State → Prop) : Prop :=
  ∃ t, run code s = some t ∧ Q t

@[simp] theorem runs_nil {s : State} {Q : State → Prop} : Runs [] s Q ↔ Q s := by
  simp [Runs, run]

theorem runs_cons {i : Instr} {code : List Instr} {s : State} {Q : State → Prop} :
    Runs (i :: code) s Q ↔ ∃ t, i.exec s = some t ∧ Runs code t Q := by
  simp only [Runs, run, Option.bind_eq_some_iff]
  constructor
  · rintro ⟨u, ⟨t, first, rest⟩, holds⟩
    exact ⟨t, first, u, rest, holds⟩
  · rintro ⟨t, first, u, rest, holds⟩
    exact ⟨u, ⟨t, first, rest⟩, holds⟩

theorem runs_append {first second : List Instr} {s : State} {Q : State → Prop} :
    Runs (first ++ second) s Q ↔ Runs first s fun t => Runs second t Q := by
  simp only [Runs, run_append, Option.bind_eq_some_iff]
  constructor
  · rintro ⟨u, ⟨t, before, after⟩, holds⟩
    exact ⟨t, before, u, after, holds⟩
  · rintro ⟨t, before, u, after, holds⟩
    exact ⟨u, ⟨t, before, after⟩, holds⟩

section Rules

variable {code : List Instr} {s : State} {Q : State → Prop}

@[simp] theorem runs_li {rt : Reg} {v : BitVec 32} :
    Runs (.li rt v :: code) s Q ↔ Runs code (s.setReg rt v) Q := by
  simp [runs_cons, Instr.exec]

@[simp] theorem runs_la {rt : Reg} {symbol : Nat} :
    Runs (.la rt symbol :: code) s Q ↔ Runs code (s.setReg rt (BitVec.ofNat 32 symbol)) Q :=
  runs_li

@[simp] theorem runs_addu {rd rs rt : Reg} :
    Runs (.addu rd rs rt :: code) s Q ↔
      Runs code (s.setReg rd (s.cpu.reg rs + s.cpu.reg rt)) Q := by
  simp [runs_cons, Instr.exec]

@[simp] theorem runs_addiu {rt rs : Reg} {imm : Int} :
    Runs (.addiu rt rs imm :: code) s Q ↔
      Runs code (s.setReg rt (s.cpu.reg rs + BitVec.ofInt 32 imm)) Q := by
  simp [runs_cons, Instr.exec]

@[simp] theorem runs_and {rd rs rt : Reg} :
    Runs (.and rd rs rt :: code) s Q ↔
      Runs code (s.setReg rd (s.cpu.reg rs &&& s.cpu.reg rt)) Q := by
  simp [runs_cons, Instr.exec]

@[simp] theorem runs_andi {rt rs : Reg} {imm : BitVec 16} :
    Runs (.andi rt rs imm :: code) s Q ↔
      Runs code (s.setReg rt (s.cpu.reg rs &&& imm.setWidth 32)) Q := by
  simp [runs_cons, Instr.exec]

@[simp] theorem runs_or {rd rs rt : Reg} :
    Runs (.or rd rs rt :: code) s Q ↔
      Runs code (s.setReg rd (s.cpu.reg rs ||| s.cpu.reg rt)) Q := by
  simp [runs_cons, Instr.exec]

@[simp] theorem runs_sll {rd rt : Reg} {sa : Nat} :
    Runs (.sll rd rt sa :: code) s Q ↔ Runs code (s.setReg rd (s.cpu.reg rt <<< sa)) Q := by
  simp [runs_cons, Instr.exec]

@[simp] theorem runs_srl {rd rt : Reg} {sa : Nat} :
    Runs (.srl rd rt sa :: code) s Q ↔ Runs code (s.setReg rd (s.cpu.reg rt >>> sa)) Q := by
  simp [runs_cons, Instr.exec]

@[simp] theorem runs_mfhi {rd : Reg} :
    Runs (.mfhi rd :: code) s Q ↔ Runs code (s.setReg rd s.cpu.hi) Q := by
  simp [runs_cons, Instr.exec]

@[simp] theorem runs_mflo {rd : Reg} :
    Runs (.mflo rd :: code) s Q ↔ Runs code (s.setReg rd s.cpu.lo) Q := by
  simp [runs_cons, Instr.exec]

@[simp] theorem runs_mthi {rs : Reg} :
    Runs (.mthi rs :: code) s Q ↔ Runs code (s.setHi (s.cpu.reg rs)) Q := by
  simp [runs_cons, Instr.exec]

@[simp] theorem runs_mtlo {rs : Reg} :
    Runs (.mtlo rs :: code) s Q ↔ Runs code (s.setLo (s.cpu.reg rs)) Q := by
  simp [runs_cons, Instr.exec]

@[simp] theorem runs_mfc0 {rt : Reg} {c : Cop0} :
    Runs (.mfc0 rt c :: code) s Q ↔ Runs code (s.setReg rt (s.cpu.cop0 c)) Q := by
  simp [runs_cons, Instr.exec]

@[simp] theorem runs_mtc0 {rt : Reg} {c : Cop0} :
    Runs (.mtc0 rt c :: code) s Q ↔ Runs code (s.setCop0 c (s.cpu.reg rt)) Q := by
  simp [runs_cons, Instr.exec]

@[simp] theorem runs_nop : Runs (.nop :: code) s Q ↔ Runs code s Q := by
  simp [runs_cons, Instr.exec]

end Rules

section Multiplication

variable (x y : BitVec 32)

/-- The high word of a product, which `multu` puts into `hi`. -/
def mulHi : BitVec 32 := ((x.setWidth 64 * y.setWidth 64) >>> 32).setWidth 32

theorem toNat_product :
    (x.setWidth 64 * y.setWidth 64 : BitVec 64).toNat = x.toNat * y.toNat := by
  have small : x.toNat * y.toNat < 2 ^ 64 := by
    have := Nat.mul_le_mul (Nat.le_sub_one_of_lt x.isLt) (Nat.le_sub_one_of_lt y.isLt)
    omega
  rw [BitVec.toNat_mul, BitVec.toNat_setWidth_of_le (by omega),
    BitVec.toNat_setWidth_of_le (by omega), Nat.mod_eq_of_lt small]

theorem toNat_mulHi : (mulHi x y).toNat = x.toNat * y.toNat / 2 ^ 32 := by
  have small : x.toNat * y.toNat / 2 ^ 32 < 2 ^ 32 := by
    have := Nat.mul_le_mul (Nat.le_sub_one_of_lt x.isLt) (Nat.le_sub_one_of_lt y.isLt)
    omega
  rw [mulHi, BitVec.toNat_setWidth, BitVec.toNat_ushiftRight, toNat_product,
    Nat.shiftRight_eq_div_pow, Nat.mod_eq_of_lt small]

theorem mul_low : (x.setWidth 64 * y.setWidth 64 : BitVec 64).setWidth 32 = x * y := by
  apply BitVec.eq_of_toNat_eq
  rw [BitVec.toNat_setWidth, toNat_product, BitVec.toNat_mul]

end Multiplication

theorem runs_multu {code : List Instr} {s : State} {Q : State → Prop} {rs rt : Reg} :
    Runs (.multu rs rt :: code) s Q ↔ Runs code ((s.setHi (mulHi (s.cpu.reg rs) (s.cpu.reg rt))).setLo
      (s.cpu.reg rs * s.cpu.reg rt)) Q := by
  rw [← mul_low]
  simp [runs_cons, Instr.exec, mulHi]

/-! ## What a block leaves alone -/

/-- The register that an instruction sets. -/
def Instr.target : Instr → Option Reg
  | .lw rt _ _ | .li rt _ | .addiu rt _ _ | .andi rt _ _ | .mfc0 rt _ => some rt
  | .addu rd _ _ | .and rd _ _ | .or rd _ _ | .sll rd _ _ | .srl rd _ _ => some rd
  | .mfhi rd | .mflo rd => some rd
  | _ => none

/-- An instruction sets nothing but one general register. -/
def Instr.quiet : Instr → Bool
  | .sw .. | .multu .. | .mthi .. | .mtlo .. | .mtc0 .. => false
  | _ => true

/-- Nothing but the registers `rs` differs. -/
structure Clobbers (rs : List Reg) (s t : State) : Prop where
  mem : t.mem = s.mem
  hi : t.cpu.hi = s.cpu.hi
  lo : t.cpu.lo = s.cpu.lo
  cop0 : t.cpu.cop0 = s.cpu.cop0
  pc : t.cpu.pc = s.cpu.pc
  reg : ∀ r, r ∉ rs → t.cpu.reg r = s.cpu.reg r

theorem Clobbers.refl (rs : List Reg) (s : State) : Clobbers rs s s :=
  ⟨rfl, rfl, rfl, rfl, rfl, fun _ _ => rfl⟩

theorem Clobbers.mono {rs rs' : List Reg} {s t : State} (changed : Clobbers rs s t)
    (more : ∀ r ∈ rs, r ∈ rs') : Clobbers rs' s t :=
  { changed with reg := fun r out => changed.reg r fun mem => out (more r mem) }

theorem Clobbers.trans {rs rs' : List Reg} {s t u : State} (first : Clobbers rs s t)
    (second : Clobbers rs' t u) : Clobbers (rs ++ rs') s u where
  mem := second.mem.trans first.mem
  hi := second.hi.trans first.hi
  lo := second.lo.trans first.lo
  cop0 := second.cop0.trans first.cop0
  pc := second.pc.trans first.pc
  reg r out := by
    rw [List.mem_append, not_or] at out
    exact (second.reg r out.2).trans (first.reg r out.1)

theorem clobbers_setReg (s : State) (r : Reg) (v : BitVec 32) : Clobbers [r] s (s.setReg r v) where
  mem := rfl
  hi := rfl
  lo := rfl
  cop0 := rfl
  pc := rfl
  reg x out := by
    exact Cpu.reg_setReg_of_ne _ (by simpa using out) _

theorem Instr.clobbers {s t : State} {i : Instr} (silent : i.quiet = true)
    (ran : i.exec s = some t) : Clobbers i.target.toList s t := by
  cases i with
  | lw rt offset base =>
      simp only [Instr.exec] at ran
      split at ran
      · cases ran
        exact clobbers_setReg _ _ _
      · cases ran
  | sw | multu | mthi | mtlo | mtc0 => cases silent
  | nop =>
      cases ran
      exact .refl _ _
  | li | addu | addiu | and | andi | or | sll | srl | mfhi | mflo | mfc0 =>
      cases ran
      exact clobbers_setReg _ _ _

/-- **A block of quiet instructions** changes nothing but its targets. -/
theorem run_clobbers {code : List Instr} (silent : code.all Instr.quiet = true) {s t : State}
    (ran : run code s = some t) : Clobbers (code.flatMap fun i => i.target.toList) s t := by
  induction code generalizing s with
  | nil =>
      cases ran
      exact .refl _ _
  | cons i code ih =>
      simp only [run, Option.bind_eq_some_iff] at ran
      obtain ⟨u, first, rest⟩ := ran
      simp only [List.all_cons, Bool.and_eq_true] at silent
      exact (Instr.clobbers silent.1 first).trans (ih silent.2 rest)

/-- A block without stores leaves memory alone. -/
theorem run_readonly {code : List Instr}
    (reads : code.all (fun i => match i with | .sw .. => false | _ => true) = true) {s t : State}
    (ran : run code s = some t) : t.mem = s.mem := by
  induction code generalizing s with
  | nil =>
      cases ran
      rfl
  | cons i code ih =>
      simp only [run, Option.bind_eq_some_iff] at ran
      obtain ⟨u, first, rest⟩ := ran
      simp only [List.all_cons, Bool.and_eq_true] at reads
      rw [ih reads.2 rest]
      cases i with
      | sw => cases reads.1
      | lw =>
          simp only [Instr.exec] at first
          split at first
          · cases first
            rfl
          · cases first
      | li | addu | addiu | and | andi | or | sll | srl | multu | mfhi | mflo | mthi | mtlo | mfc0
      | mtc0 | nop =>
          cases first
          rfl

/-- A block leaves a co-processor register alone that it does not move to. -/
theorem run_cop0 {code : List Instr} {c : Cop0}
    (others : code.all (fun i => match i with | .mtc0 _ d => d ≠ c | _ => true) = true)
    {s t : State} (ran : run code s = some t) : t.cpu.cop0 c = s.cpu.cop0 c := by
  induction code generalizing s with
  | nil =>
      cases ran
      rfl
  | cons i code ih =>
      simp only [run, Option.bind_eq_some_iff] at ran
      obtain ⟨u, first, rest⟩ := ran
      simp only [List.all_cons, Bool.and_eq_true] at others
      rw [ih others.2 rest]
      cases i with
      | mtc0 rt d =>
          cases first
          have other : d ≠ c := by simpa using others.1
          exact Function.update_of_ne other.symm _ _
      | lw | sw =>
          simp only [Instr.exec] at first
          split at first
          · cases first
            rfl
          · cases first
      | li | addu | addiu | and | andi | or | sll | srl | multu | mfhi | mflo | mthi | mtlo | mfc0
      | nop =>
          cases first
          rfl

/-! ## Saving and loading registers relative to one base -/

/-- `sw` of each register at its offset. -/
def stores (base : Reg) (l : List (Reg × Nat)) : List Instr :=
  l.map fun x => .sw x.1 (x.2 : Int) base

/-- `lw` of each register from its offset. -/
def loads (base : Reg) (l : List (Reg × Nat)) : List Instr :=
  l.map fun x => .lw x.1 (x.2 : Int) base

/-- The memory after a block of stores at `a`. -/
def stored (c : Cpu) (a : Nat) : List (Reg × Nat) → Words → Words
  | [], mem => mem
  | (r, offset) :: l, mem => stored c a l (Function.update mem (a + offset) (c.reg r))

/-- The CPU after a block of loads from `a`. -/
def loaded (mem : Words) (a : Nat) : List (Reg × Nat) → Cpu → Cpu
  | [], c => c
  | (r, offset) :: l, c => loaded mem a l (c.setReg r (mem (a + offset)))

/-- An offset from an aligned base that stays below the end of memory. -/
theorem address_eq {s : State} {base : Reg} {a offset : Nat}
    (at_base : s.cpu.reg base = BitVec.ofNat 32 a) (room : a + offset < 2 ^ 32) :
    s.address base offset = a + offset := by
  rw [State.address, at_base, BitVec.ofInt_natCast, BitVec.toNat_add, BitVec.toNat_ofNat,
    BitVec.toNat_ofNat]
  omega

/-- `lw` at an offset from an aligned base. -/
theorem exec_lw {s : State} {rt base : Reg} {a offset : Nat}
    (at_base : s.cpu.reg base = BitVec.ofNat 32 a) (room : a + offset < 2 ^ 32)
    (aligned : (a + offset) % 4 = 0) :
    (Instr.lw rt offset base).exec s = some (s.setReg rt (s.mem (a + offset))) := by
  rw [Instr.exec, address_eq at_base room, if_pos aligned]

/-- `sw` at an offset from an aligned base. -/
theorem exec_sw {s : State} {rt base : Reg} {a offset : Nat}
    (at_base : s.cpu.reg base = BitVec.ofNat 32 a) (room : a + offset < 2 ^ 32)
    (aligned : (a + offset) % 4 = 0) :
    (Instr.sw rt offset base).exec s = some (s.store (a + offset) (s.cpu.reg rt)) := by
  rw [Instr.exec, address_eq at_base room, if_pos aligned]

theorem Runs.lw {code : List Instr} {s : State} {Q : State → Prop} {rt base : Reg} {offset : Int}
    {a o : Nat} (same : offset = o) (at_base : s.cpu.reg base = BitVec.ofNat 32 a)
    (room : a + o < 2 ^ 32) (aligned : (a + o) % 4 = 0)
    (rest : Runs code (s.setReg rt (s.mem (a + o))) Q) : Runs (.lw rt offset base :: code) s Q := by
  subst same
  exact runs_cons.2 ⟨_, exec_lw at_base room aligned, rest⟩

theorem Runs.sw {code : List Instr} {s : State} {Q : State → Prop} {rt base : Reg} {offset : Int}
    {a o : Nat} (same : offset = o) (at_base : s.cpu.reg base = BitVec.ofNat 32 a)
    (room : a + o < 2 ^ 32) (aligned : (a + o) % 4 = 0)
    (rest : Runs code (s.store (a + o) (s.cpu.reg rt)) Q) : Runs (.sw rt offset base :: code) s Q := by
  subst same
  exact runs_cons.2 ⟨_, exec_sw at_base room aligned, rest⟩

/-- The address of an element of an array whose elements have `2 ^ k` bytes. -/
theorem element_address (a n k : Nat) :
    BitVec.ofNat 32 a + BitVec.ofNat 32 n <<< k = BitVec.ofNat 32 (a + n * 2 ^ k) := by
  apply BitVec.eq_of_toNat_eq
  simp [BitVec.toNat_shiftLeft, Nat.shiftLeft_eq]

/-- **A block of stores** changes the memory and nothing else. -/
theorem run_stores {base : Reg} {a : Nat} {l : List (Reg × Nat)} (aligned : a % 4 = 0)
    (offsets : ∀ x ∈ l, x.2 % 4 = 0 ∧ a + x.2 < 2 ^ 32) {s : State} (at_base : s.cpu.reg base = BitVec.ofNat 32 a) :
    run (stores base l) s = some { s with mem := stored s.cpu a l s.mem } := by
  induction l generalizing s with
  | nil => rfl
  | cons x l ih =>
      obtain ⟨r, offset⟩ := x
      obtain ⟨fits, room⟩ := offsets _ List.mem_cons_self
      have ready : (a + offset) % 4 = 0 := by omega
      simp only [stores, List.map_cons, run, exec_sw at_base room ready, Option.bind_some]
      exact ih (fun x mem => offsets x (List.mem_cons_of_mem _ mem)) at_base

theorem stored_other (c : Cpu) {a b : Nat} {l : List (Reg × Nat)} {mem : Words}
    (apart : ∀ x ∈ l, b ≠ a + x.2) : stored c a l mem b = mem b := by
  induction l generalizing mem with
  | nil => rfl
  | cons x l ih =>
      rw [stored, ih fun x mem => apart x (List.mem_cons_of_mem _ mem)]
      exact Function.update_of_ne (apart x List.mem_cons_self) _ _

/-- Distinct offsets keep what was stored. -/
theorem stored_mem (c : Cpu) {a : Nat} {l : List (Reg × Nat)} {mem : Words}
    (distinct : (l.map Prod.snd).Nodup) {r : Reg} {offset : Nat} (there : (r, offset) ∈ l) :
    stored c a l mem (a + offset) = c.reg r := by
  induction l generalizing mem with
  | nil => cases there
  | cons x l ih =>
      obtain ⟨fresh, rest⟩ := List.nodup_cons.1 distinct
      rcases List.mem_cons.1 there with rfl | later
      · rw [stored, stored_other, Function.update_self]
        intro y mem same
        exact fresh (List.mem_map.2 ⟨y, mem, by omega⟩)
      · exact ih rest later

/-- **A block of loads** changes the registers it names and nothing else. -/
theorem run_loads {base : Reg} {a : Nat} {l : List (Reg × Nat)} (aligned : a % 4 = 0)
    (offsets : ∀ x ∈ l, x.2 % 4 = 0 ∧ a + x.2 < 2 ^ 32) (others : ∀ x ∈ l, x.1 ≠ base)
    {s : State} (at_base : s.cpu.reg base = BitVec.ofNat 32 a) :
    run (loads base l) s = some { s with cpu := loaded s.mem a l s.cpu } := by
  induction l generalizing s with
  | nil => rfl
  | cons x l ih =>
      obtain ⟨r, offset⟩ := x
      obtain ⟨fits, room⟩ := offsets _ List.mem_cons_self
      have ready : (a + offset) % 4 = 0 := by omega
      have other : base ≠ r := (others _ List.mem_cons_self).symm
      simp only [loads, List.map_cons, run, exec_lw at_base room ready, Option.bind_some]
      apply ih (s := s.setReg r (s.mem (a + offset)))
        (fun x mem => offsets x (List.mem_cons_of_mem _ mem))
        (fun x mem => others x (List.mem_cons_of_mem _ mem))
      rw [State.cpu_setReg, Cpu.reg_setReg_of_ne _ other]
      exact at_base

section Loaded

variable (mem : Words) (a : Nat) (l : List (Reg × Nat)) (c : Cpu)

@[simp] theorem loaded_hi : (loaded mem a l c).hi = c.hi := by
  induction l generalizing c with
  | nil => rfl
  | cons x l ih => exact ih _

@[simp] theorem loaded_lo : (loaded mem a l c).lo = c.lo := by
  induction l generalizing c with
  | nil => rfl
  | cons x l ih => exact ih _

@[simp] theorem loaded_cop0 : (loaded mem a l c).cop0 = c.cop0 := by
  induction l generalizing c with
  | nil => rfl
  | cons x l ih => exact ih _

end Loaded

theorem loaded_other {mem : Words} {a : Nat} {l : List (Reg × Nat)} {c : Cpu} {r : Reg}
    (apart : ∀ x ∈ l, x.1 ≠ r) : (loaded mem a l c).reg r = c.reg r := by
  induction l generalizing c with
  | nil => rfl
  | cons x l ih =>
      have here : r ≠ x.1 := (apart x List.mem_cons_self).symm
      rw [loaded, ih fun x mem => apart x (List.mem_cons_of_mem _ mem),
        Cpu.reg_setReg_of_ne _ here]

/-- Distinct registers hold what was loaded. -/
theorem loaded_mem {mem : Words} {a : Nat} {l : List (Reg × Nat)} {c : Cpu}
    (distinct : (l.map Prod.fst).Nodup) {r : Reg} {offset : Nat} (real : r ≠ .zero)
    (there : (r, offset) ∈ l) : (loaded mem a l c).reg r = mem (a + offset) := by
  induction l generalizing c with
  | nil => cases there
  | cons x l ih =>
      obtain ⟨fresh, rest⟩ := List.nodup_cons.1 distinct
      rcases List.mem_cons.1 there with rfl | later
      · rw [loaded, loaded_other, Cpu.reg_setReg, if_neg real, if_pos rfl]
        intro y mem same
        exact fresh (List.mem_map.2 ⟨y, mem, same⟩)
      · exact ih rest later

end Buenos.Theory.Mips
