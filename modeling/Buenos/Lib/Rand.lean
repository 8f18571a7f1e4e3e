/-
# Lib.Rand -- random numbers

lib/rand.S, with the three words of its data section one after another.  The system below has
`_set_rand_seed`, `_get_rand` and any other code that leaves these words alone, each call with
whatever registers its caller has.  A call of `_get_rand` is one step: the scheduler calls it on
every CPU without a lock, and calls that overlap may see one seed twice.

`get_rand_period` is about the seed, which comes back after 2^32 calls and not before.
`get_rand_uniform` is about the numbers: in 2^32 calls with one range every number below the
range comes up as often as every other, or once more.
-/
import Buenos.Theory.Congruential
import Buenos.Theory.Mips
import Buenos.Theory.Run

namespace Buenos.Lib

open Buenos.Theory Buenos.Theory.Mips

set_option autoImplicit false

/-! ## The code -/

/-- The address of `rand5_a`; `rand5_c` and `rand5_seed` are the next two words. -/
structure RandData where
  base : Nat
  aligned : base % 4 = 0
  fits : base + 12 ≤ 2 ^ 32

def rand5A : BitVec 32 := 314159557#32
def rand5C : BitVec 32 := 23550511#32

variable (D : RandData)

def setRandSeed : List Instr := [.la .AT (D.base + 8), .sw .a0 0 .AT]

def getRand : List Instr :=
  [.la .t0 D.base, .lw .t0 0 .t0, .la .t1 (D.base + 4), .lw .t1 0 .t1, .la .t2 (D.base + 8),
    .lw .t2 0 .t2, .multu .t2 .t0, .mflo .t2, .addu .t2 .t2 .t1, .la .AT (D.base + 8),
    .sw .t2 0 .AT, .multu .t2 .a0, .mfhi .v0]

/-! ## Runs -/

/-- A call has the registers of its caller, with the argument in `a0`. -/
inductive RandAction where
  | seed (cpu : Cpu)
  | draw (cpu : Cpu)
  | write (a : Nat) (v : BitVec 32)

def RandAction.draws : RandAction → Bool
  | .draw _ => true
  | .seed _ | .write .. => false

def RandAction.seeds : RandAction → Bool
  | .seed _ => true
  | .draw _ | .write .. => false

def randSystem : System Words RandAction where
  initial mem := mem D.base = rand5A ∧ mem (D.base + 4) = rand5C ∧ mem (D.base + 8) = 0
  step mem
    | .seed cpu => (run (setRandSeed D) ⟨cpu, mem⟩).map State.mem
    | .draw cpu => (run (getRand D) ⟨cpu, mem⟩).map State.mem
    | .write a v =>
        if a < D.base ∨ D.base + 12 ≤ a then some (Function.update mem a v) else none

/-- The numbers that the calls of a run return. -/
def drawn : Words → List RandAction → List (BitVec 32)
  | _, [] => []
  | mem, a :: as =>
      (match a with
        | .draw cpu => ((run (getRand D) ⟨cpu, mem⟩).map fun u => u.cpu.reg .v0).toList
        | .seed _ | .write .. => []) ++
      ((randSystem D).step mem a).elim [] fun mem => drawn mem as

/-! ## One call -/

section Calls

variable {D} {mem : Words}

theorem setRandSeed_run (mem : Words) (cpu : Cpu) : ∃ u, run (setRandSeed D) ⟨cpu, mem⟩ = some u ∧
    u.mem = Function.update mem (D.base + 8) (cpu.reg .a0) := by
  have aligned := D.aligned
  have fits := D.fits
  have runs : Runs (setRandSeed D) ⟨cpu, mem⟩ fun u =>
      u.mem = Function.update mem (D.base + 8) (cpu.reg .a0) := by
    rw [setRandSeed, runs_la]
    refine Runs.sw (a := D.base + 8) (o := 0) rfl (by simp [Cpu.reg_setReg]) (by omega) (by omega) ?_
    simp [Cpu.reg_setReg]
  exact runs

theorem getRand_run {a c : BitVec 32} (first : mem D.base = a) (second : mem (D.base + 4) = c)
    (cpu : Cpu) :
    ∃ u, run (getRand D) ⟨cpu, mem⟩ = some u ∧
      u.mem = Function.update mem (D.base + 8) (lcg a c (mem (D.base + 8))) ∧
      u.cpu.reg .v0 = mulHi (lcg a c (mem (D.base + 8))) (cpu.reg .a0) := by
  have aligned := D.aligned
  have fits := D.fits
  have room : D.base + 8 + 0 < 2 ^ 32 := by omega
  have room₄ : D.base + 4 + 0 < 2 ^ 32 := by omega
  have room₀ : D.base + 0 < 2 ^ 32 := by omega
  have runs : Runs (getRand D) ⟨cpu, mem⟩ fun u =>
      u.mem = Function.update mem (D.base + 8) (lcg a c (mem (D.base + 8))) ∧
      u.cpu.reg .v0 = mulHi (lcg a c (mem (D.base + 8))) (cpu.reg .a0) := by
    rw [getRand, runs_la]
    refine Runs.lw (a := D.base) (o := 0) rfl (by simp [Cpu.reg_setReg]) room₀ (by omega) ?_
    rw [runs_la]
    refine Runs.lw (a := D.base + 4) (o := 0) rfl (by simp [Cpu.reg_setReg]) room₄ (by omega) ?_
    rw [runs_la]
    refine Runs.lw (a := D.base + 8) (o := 0) rfl (by simp [Cpu.reg_setReg]) room (by omega) ?_
    rw [runs_multu, runs_mflo, runs_addu, runs_la]
    refine Runs.sw (a := D.base + 8) (o := 0) rfl (by simp [Cpu.reg_setReg]) room (by omega) ?_
    rw [runs_multu, runs_mfhi, runs_nil]
    rw [lcg, mul_comm a]
    simp only [State.cpu_setReg, State.mem_setReg, State.cpu_store, State.mem_store,
      State.mem_setHi, State.mem_setLo, State.reg_setHi, State.reg_setLo, State.hi_setHi,
      State.hi_setLo, State.lo_setLo, Cpu.reg_setReg, reduceCtorEq, if_true, if_false,
      Nat.add_zero, first, second, and_self]
  exact runs

end Calls

/-! ## Sequences of calls -/

section Sequences

variable {D} {a c : BitVec 32} {mem mem' : Words} {as : List RandAction}

/-- The two constants in memory. -/
def Constants (D : RandData) (a c : BitVec 32) (mem : Words) : Prop :=
  mem D.base = a ∧ mem (D.base + 4) = c

theorem Constants.step (constants : Constants D a c mem) {x : RandAction}
    (taken : (randSystem D).step mem x = some mem') :
    Constants D a c mem' ∧ (x.draws = false → x.seeds = false → mem' (D.base + 8) = mem (D.base + 8)) := by
  have seeded : ∀ v, Constants D a c (Function.update mem (D.base + 8) v) := fun v =>
    ⟨(Function.update_of_ne (by omega) _ _).trans constants.1,
      (Function.update_of_ne (by omega) _ _).trans constants.2⟩
  cases x with
  | seed cpu =>
      obtain ⟨u, ran, stored⟩ := setRandSeed_run (D := D) mem cpu
      simp only [randSystem, ran, Option.map_some, Option.some.injEq] at taken
      rw [← taken, stored]
      exact ⟨seeded _, fun _ bad => by cases bad⟩
  | draw cpu =>
      obtain ⟨u, ran, stored, -⟩ := getRand_run constants.1 constants.2 cpu
      simp only [randSystem, ran, Option.map_some, Option.some.injEq] at taken
      rw [← taken, stored]
      exact ⟨seeded _, fun bad => by cases bad⟩
  | write b v =>
      simp only [randSystem] at taken
      split at taken
      · cases taken
        exact ⟨⟨(Function.update_of_ne (by omega) _ _).trans constants.1,
          (Function.update_of_ne (by omega) _ _).trans constants.2⟩,
          fun _ _ => Function.update_of_ne (by omega) _ _⟩
      · cases taken

theorem constants_reachable (reached : (randSystem D).Reachable mem) :
    Constants D rand5A rand5C mem :=
  System.Reachable.invariant (fun _ first => ⟨first.1, first.2.1⟩)
    (fun _ _ _ constants taken => (constants.step taken).1) reached

/-- Every call returns, and the numbers and the seed are those of the generator. -/
theorem drawn_eq {r : BitVec 32} (constants : Constants D a c mem)
    (ran : (randSystem D).exec mem as = some mem') (unseeded : as.countP RandAction.seeds = 0) :
    mem' (D.base + 8) = (lcg a c)^[as.countP RandAction.draws] (mem (D.base + 8)) ∧
    ((∀ cpu, .draw cpu ∈ as → cpu.reg .a0 = r) →
      drawn D mem as = (List.range (as.countP RandAction.draws)).map fun n =>
        mulHi ((lcg a c)^[n] (lcg a c (mem (D.base + 8)))) r) := by
  induction as generalizing mem with
  | nil =>
      cases ran
      exact ⟨rfl, fun _ => rfl⟩
  | cons x as ih =>
      simp only [System.exec, Option.bind_eq_some_iff] at ran
      obtain ⟨next, taken, rest⟩ := ran
      obtain ⟨constants', same⟩ := constants.step taken
      rw [List.countP_cons, Nat.add_eq_zero_iff] at unseeded
      obtain ⟨last, numbers⟩ := ih constants' rest unseeded.1
      have later : (∀ cpu, .draw cpu ∈ x :: as → cpu.reg .a0 = r) →
          ∀ cpu, .draw cpu ∈ as → cpu.reg .a0 = r := fun ranges cpu there =>
        ranges cpu (List.mem_cons_of_mem _ there)
      cases x with
      | seed cpu => simp [RandAction.seeds] at unseeded
      | draw cpu =>
          obtain ⟨u, call, stored, number⟩ := getRand_run constants.1 constants.2 cpu
          have moved := taken
          simp only [randSystem, call, Option.map_some, Option.some.injEq] at moved
          have seed : next (D.base + 8) = lcg a c (mem (D.base + 8)) := by
            rw [← moved, stored, Function.update_self]
          rw [List.countP_cons_of_pos rfl, Function.iterate_succ_apply, ← seed]
          refine ⟨last, fun ranges => ?_⟩
          rw [drawn, taken, List.range_succ_eq_map, List.map_cons, List.map_map]
          simp only [call, Option.map_some, Option.toList_some, Option.elim_some, number,
            ranges cpu List.mem_cons_self, numbers (later ranges), seed, List.singleton_append]
          rfl
      | write b v =>
          rw [List.countP_cons_of_neg (by simp [RandAction.draws]), ← same rfl rfl]
          refine ⟨last, fun ranges => ?_⟩
          rw [drawn, taken, ← numbers (later ranges)]
          rfl

theorem count_map_range {β : Type} [DecidableEq β] (f : Nat → β) (v : β) (n : Nat) :
    ((List.range n).map f).count v = ((Finset.range n).filter fun k => f k = v).card := by
  rw [List.count, List.countP_map, List.countP_eq_length_filter]
  rfl

/-- Among `2 ^ 32` scaled states of a generator with full period every number comes up. -/
theorem count_scaled {α γ : ℤ} (one : 4 ∣ α - 1) (odd : ¬ 2 ∣ γ) (x r v : BitVec 32)
    (below : v.toNat < r.toNat) :
    2 ^ 32 / r.toNat ≤ ((List.range (2 ^ 32)).map fun n =>
        mulHi ((lcg (α : BitVec 32) (γ : BitVec 32))^[n] x) r).count v ∧
      ((List.range (2 ^ 32)).map fun n =>
        mulHi ((lcg (α : BitVec 32) (γ : BitVec 32))^[n] x) r).count v ≤ 2 ^ 32 / r.toNat + 1 := by
  rw [count_map_range]
  simp only [← BitVec.toNat_inj (x := mulHi _ _), toNat_mulHi]
  rw [card_lcg one odd x fun m => m * r.toNat / 2 ^ 32 = v.toNat]
  exact card_scaled (by omega) below

end Sequences

theorem constants_cast : rand5A = ((314159557 : ℤ) : BitVec 32) ∧
    rand5C = ((23550511 : ℤ) : BitVec 32) := by
  constructor <;> exact BitVec.eq_of_toNat_eq (by rw [BitVec.toNat_intCast]; rfl)

/-- **The seed has full period.**  Between two states of a run without a new seed, whatever the
ranges of the calls and whatever other code writes elsewhere, the seed is the same exactly if the
number of calls is a multiple of 2^32. -/
theorem get_rand_period (D : RandData) {s t : Words} {as : List RandAction}
    (reached : (randSystem D).Reachable s) (ran : (randSystem D).exec s as = some t)
    (unseeded : as.countP RandAction.seeds = 0) :
    t (D.base + 8) = s (D.base + 8) ↔ 2 ^ 32 ∣ as.countP RandAction.draws := by
  obtain ⟨last, -⟩ := drawn_eq (r := 0) (constants_reachable reached) ran unseeded
  rw [last, constants_cast.1, constants_cast.2]
  exact lcg_iterate_eq_self (by decide) (by decide) _ _

/-- **The numbers are spread evenly.**  Take 2^32 calls with one range, which is not zero, with
any other code in between that leaves the generator alone.  Every number is below the range, and
every number below the range is returned 2^32 / range times or once more. -/
theorem get_rand_uniform (D : RandData) {s t : Words} {as : List RandAction} {r : BitVec 32}
    (reached : (randSystem D).Reachable s) (ran : (randSystem D).exec s as = some t)
    (unseeded : as.countP RandAction.seeds = 0) (ranges : ∀ cpu, .draw cpu ∈ as → cpu.reg .a0 = r)
    (nonzero : r ≠ 0) (many : as.countP RandAction.draws = 2 ^ 32) :
    (∀ v ∈ drawn D s as, v < r) ∧
      ∀ v, v < r → 2 ^ 32 / r.toNat ≤ (drawn D s as).count v ∧
        (drawn D s as).count v ≤ 2 ^ 32 / r.toNat + 1 := by
  obtain ⟨-, numbers⟩ := drawn_eq (constants_reachable reached) ran unseeded
  rw [numbers ranges, many]
  refine ⟨?_, ?_⟩
  · intro v there
    obtain ⟨n, -, rfl⟩ := List.mem_map.1 there
    have positive : 0 < r.toNat := Nat.pos_of_ne_zero fun zero =>
      nonzero (BitVec.eq_of_toNat_eq zero)
    rw [BitVec.lt_def, toNat_mulHi]
    exact Nat.div_lt_of_lt_mul (Nat.mul_lt_mul_of_pos_right (BitVec.isLt _) positive)
  · intro v below
    rw [constants_cast.1, constants_cast.2]
    exact count_scaled (by decide) (by decide) _ r v below

/-! ## One CPU drawing -/

/-- The generator at boot. -/
def RandData.boot : RandData := ⟨0x80030000, by decide, by decide⟩

def randBoot (a : Nat) : BitVec 32 :=
  if a = RandData.boot.base then rand5A
  else if a = RandData.boot.base + 4 then rand5C else 0

/-- A caller with the range 1000 in `a0`. -/
def drawer : Cpu :=
  { gpr := fun r => if r = .a0 then 1000 else 0, hi := 0, lo := 0, cop0 := fun _ => 0, pc := 0 }

theorem randBoot_initial : (randSystem RandData.boot).initial randBoot := by
  refine ⟨rfl, ?_, ?_⟩ <;> decide

/-- Calls can be made for ever. -/
theorem draws_run (D : RandData) (n : Nat) {a c : BitVec 32} {s : Words}
    (constants : Constants D a c s) :
    ∃ t, (randSystem D).exec s (List.replicate n (.draw drawer)) = some t := by
  induction n generalizing s with
  | zero => exact ⟨s, rfl⟩
  | succ n ih =>
      obtain ⟨u, ran, -⟩ := getRand_run constants.1 constants.2 drawer
      have taken : (randSystem D).step s (.draw drawer) = some u.mem := by
        simp only [randSystem, ran, Option.map_some]
      obtain ⟨t, rest⟩ := ih (constants.step taken).1
      exact ⟨t, by rw [List.replicate_succ, System.exec, taken]; exact rest⟩

/-- One call is not a multiple of 2^32. -/
theorem get_rand_period_one :
    ∃ t, (randSystem RandData.boot).exec randBoot [.draw drawer] = some t ∧
      t (RandData.boot.base + 8) ≠ randBoot (RandData.boot.base + 8) := by
  have reached := System.Reachable.start randBoot_initial
  obtain ⟨t, ran⟩ := draws_run RandData.boot 1 (constants_reachable reached)
  refine ⟨t, ran, fun same => ?_⟩
  have divides := (get_rand_period RandData.boot reached ran (by decide)).1 same
  exact absurd divides (by decide)

/-- The slices of a whole period, of which every length comes up 4294967 times or once more. -/
theorem get_rand_uniform_slices :
    ∃ t, (randSystem RandData.boot).exec randBoot (List.replicate (2 ^ 32) (.draw drawer)) =
        some t ∧
      4294967 ≤ (drawn RandData.boot randBoot (List.replicate (2 ^ 32) (.draw drawer))).count 7 := by
  have reached := System.Reachable.start randBoot_initial
  obtain ⟨t, ran⟩ := draws_run RandData.boot (2 ^ 32) (constants_reachable reached)
  refine ⟨t, ran, ?_⟩
  have even := get_rand_uniform RandData.boot (r := 1000) reached ran
    (by rw [List.countP_replicate, if_neg (by simp [RandAction.seeds])])
    (fun cpu there => by
      obtain rfl := RandAction.draw.inj (List.eq_of_mem_replicate there)
      decide)
    (by decide)
    (by rw [List.countP_replicate, if_pos (show (RandAction.draw drawer).draws = true from rfl)])
  exact le_trans (by decide) (even.2 7 (by decide)).1

end Buenos.Lib
