/-
# Kernel.Spinlock -- the spinlocks

kernel/_spinlock.S, instruction by instruction and on any number of CPUs.  `spinStep` lets
every CPU take its next instruction at any time, and lets every link be lost at any time.
The callers promise three things: a spinlock is reset before it is used and while nobody uses it,
a CPU releases what it has acquired, and a CPU is in one call at a time.

`lockSystem` is what a spinlock is for: an owner, or none.  The successful `sc` is the point at
which the owner changes, so `spinlock_refines` says that what the CPUs do to the lock words is a
run of `lockSystem`, and whoever has returned from `spinlock_acquire` is the owner.
`spinlock_progress` is about the loop: a free lock is taken, by the CPU that is trying or by one
that was faster, before that CPU has executed eight instructions.
-/
import Buenos.Theory.Refine
import Buenos.Theory.LoadLinked
import Mathlib.Tactic.Common

namespace Buenos.Kernel

open Buenos.Theory

set_option autoImplicit false

/-! ## The code -/

/-- The instructions of `spinlock_acquire`. -/
inductive AcquirePc where
  | ll
  | bnez
  | li
  | sc
  | beqz
  | jr
  deriving DecidableEq, Repr

abbrev LockMemory := LinkedMemory Nat Nat (BitVec 32)

/-- One instruction of `spinlock_acquire`: memory, `t0`, and the next instruction, or none after
the return. -/
def acquireStep (m : LockMemory) (cpu a : Nat) (t0 : BitVec 32) :
    AcquirePc → LockMemory × BitVec 32 × Option AcquirePc
  | .ll => ((m.loadLinked cpu a).2, (m.loadLinked cpu a).1, some .bnez)
  | .bnez => (m, t0, some (if t0 ≠ 0 then .ll else .li))
  | .li => (m, 1, some .sc)
  | .sc =>
      ((m.storeConditional cpu a t0).2, if (m.storeConditional cpu a t0).1 then 1 else 0,
        some .beqz)
  | .beqz => (m, t0, some (if t0 = 0 then .ll else .jr))
  | .jr => (m, t0, none)

/-- `spinlock_reset`, which is also `spinlock_release`. -/
def spinlockRelease (m : LockMemory) (cpu a : Nat) : LockMemory := m.store cpu a 0

/-! ## All CPUs -/

structure Spin where
  memory : LockMemory
  /-- The lock that a CPU is acquiring, and its next instruction. -/
  pc : Nat → Option (Nat × AcquirePc)
  t0 : Nat → BitVec 32
  /-- Which locks a CPU has acquired and not released. -/
  holds : Nat → Nat → Bool
  /-- Which locks have been reset. -/
  live : Nat → Bool

inductive SpinAction where
  | reset (cpu a : Nat)
  | acquire (cpu a : Nat) (t0 : BitVec 32)
  | instr (cpu : Nat)
  | release (cpu a : Nat)
  | lose (cpu : Nat)
  deriving DecidableEq

/-- No CPU holds the lock or tries to. -/
def Spin.Unused (cpus : Nat) (s : Spin) (a : Nat) : Prop :=
  ∀ c < cpus, s.holds c a = false ∧ (s.pc c).map Prod.fst ≠ some a

instance (cpus : Nat) (s : Spin) (a : Nat) : Decidable (s.Unused cpus a) :=
  inferInstanceAs (Decidable (∀ c < cpus, _ ∧ _))

def spinStep (cpus : Nat) (s : Spin) : SpinAction → Option Spin
  | .reset cpu a =>
      if cpu < cpus ∧ s.pc cpu = none ∧ s.Unused cpus a then
        some { s with
          memory := spinlockRelease s.memory cpu a
          live := Function.update s.live a true }
      else none
  | .acquire cpu a t0 =>
      if cpu < cpus ∧ s.pc cpu = none ∧ s.live a = true then
        some { s with
          pc := Function.update s.pc cpu (some (a, .ll))
          t0 := Function.update s.t0 cpu t0 }
      else none
  | .instr cpu =>
      match s.pc cpu with
      | none => none
      | some (a, i) =>
          let (memory, t0, next) := acquireStep s.memory cpu a (s.t0 cpu) i
          some { s with
            memory := memory
            t0 := Function.update s.t0 cpu t0
            pc := Function.update s.pc cpu (next.map fun i => (a, i))
            holds := if next = none then
              Function.update s.holds cpu (Function.update (s.holds cpu) a true) else s.holds }
  | .release cpu a =>
      if cpu < cpus ∧ s.pc cpu = none ∧ s.holds cpu a = true then
        some { s with
          memory := spinlockRelease s.memory cpu a
          holds := Function.update s.holds cpu (Function.update (s.holds cpu) a false) }
      else none
  | .lose cpu => some { s with memory := s.memory.lose cpu }

/-- Before any lock is reset the words can be anything. -/
def spinSystem (cpus : Nat) : System Spin SpinAction where
  initial s := (∀ c, s.pc c = none) ∧ (∀ c a, s.holds c a = false) ∧ ∀ a, s.live a = false
  step := spinStep cpus

/-! ## What a lock is for -/

/-- The owner of each lock. -/
abbrev Owners := Nat → Option Nat

inductive LockAction where
  | acquire (cpu a : Nat)
  | release (cpu a : Nat)
  deriving DecidableEq, Repr

def lockSystem : System Owners LockAction where
  initial o := o = fun _ => none
  step o
    | .acquire cpu a => if o a = none then some (Function.update o a (some cpu)) else none
    | .release cpu a => if o a = some cpu then some (Function.update o a none) else none

/-- The instruction that takes the lock is an `sc` whose link lasts. -/
def Spin.view (s : Spin) : SpinAction → List LockAction
  | .instr cpu =>
      match s.pc cpu with
      | some (a, .sc) => if s.memory.link cpu = some a then [.acquire cpu a] else []
      | _ => []
  | .release cpu a => [.release cpu a]
  | _ => []

/-! ## The invariant -/

/-- Past the successful `sc`. -/
def AcquirePc.Past (t0 : BitVec 32) : AcquirePc → Prop
  | .beqz => t0 ≠ 0
  | .jr => True
  | .ll | .bnez | .li | .sc => False

/-- The CPU has the lock: it has acquired it, or is past its successful `sc`. -/
def Spin.Owns (s : Spin) (c a : Nat) : Prop :=
  s.holds c a = true ∨ ∃ i, s.pc c = some (a, i) ∧ i.Past (s.t0 c)

/-- What a CPU knows before an instruction. -/
def Knows (m : LockMemory) (c a : Nat) (t0 : BitVec 32) : AcquirePc → Prop
  | .bnez => m.Sees c a t0
  | .li => m.Sees c a 0
  | .sc => t0 = 1 ∧ m.Sees c a 0
  | .beqz => t0 = 0 ∨ t0 = 1
  | .ll | .jr => True

theorem Knows.mono {m m' : LockMemory} {c a : Nat} {t0 : BitVec 32} {i : AcquirePc}
    (knows : Knows m c a t0 i) (keeps : ∀ v, m.Sees c a v → m'.Sees c a v) :
    Knows m' c a t0 i := by
  cases i with
  | bnez | li => exact keeps _ knows
  | sc => exact ⟨knows.1, keeps _ knows.2⟩
  | beqz => exact knows
  | ll | jr => trivial

structure Locked (cpus : Nat) (s : Spin) (o : Owners) : Prop where
  word : ∀ a, s.live a = true → s.memory.word a = if o a = none then 0 else 1
  owner : ∀ c a, s.Owns c a ↔ o a = some c
  trying : ∀ c a i, s.pc c = some (a, i) →
    c < cpus ∧ s.live a = true ∧ Knows s.memory c a (s.t0 c) i
  holding : ∀ c a, s.holds c a = true → c < cpus ∧ s.live a = true

namespace Locked

variable {cpus : Nat} {s : Spin} {o : Owners}

theorem start (first : (spinSystem cpus).initial s) : Locked cpus s fun _ => none := by
  obtain ⟨outside, none, dead⟩ := first
  refine ⟨?_, ?_, ?_, ?_⟩
  · intro a live
    rw [dead a] at live
    cases live
  · intro c a
    simp [Spin.Owns, outside c, none c a]
  · intro c a i trying
    rw [outside c] at trying
    cases trying
  · intro c a holds
    rw [none c a] at holds
    cases holds

/-- A lock that somebody owns has been reset. -/
theorem owned_live (locked : Locked cpus s o) {c a : Nat} (owned : o a = some c) :
    c < cpus ∧ s.live a = true := by
  rcases (locked.owner c a).2 owned with holds | ⟨i, trying, -⟩
  · exact locked.holding c a holds
  · exact ⟨(locked.trying c a i trying).1, (locked.trying c a i trying).2.1⟩

/-- Nobody owns a lock that is not used. -/
theorem unused_free (locked : Locked cpus s o) {a : Nat} (unused : s.Unused cpus a) : o a = none := by
  cases owned : o a with
  | none => rfl
  | some c =>
      obtain ⟨free, away⟩ := unused c (locked.owned_live owned).1
      rcases (locked.owner c a).2 owned with holds | ⟨i, trying, -⟩
      · rw [free] at holds
        cases holds
      · rw [trying] at away
        exact absurd rfl away

theorem reset (locked : Locked cpus s o) {cpu a : Nat} (outside : s.pc cpu = none)
    (unused : s.Unused cpus a) :
    Locked cpus { s with
      memory := spinlockRelease s.memory cpu a
      live := Function.update s.live a true } o where
  word := by
    intro b live
    change Function.update s.live a true b = true at live
    show Function.update s.memory.word a 0 b = _
    by_cases same : b = a
    · rw [same, Function.update_self, locked.unused_free unused, if_pos rfl]
    · rw [Function.update_of_ne same]
      exact locked.word b (by rwa [Function.update_of_ne same] at live)
  owner := locked.owner
  trying := by
    intro c b i trying
    obtain ⟨on, live, knows⟩ := locked.trying c b i trying
    have other : c ≠ cpu := by
      rintro rfl
      rw [outside] at trying
      cases trying
    refine ⟨on, ?_, knows.mono fun v sees => sees.store other⟩
    show Function.update s.live a true b = true
    rw [Function.update_apply]
    split
    · rfl
    · exact live
  holding := by
    intro c b holds
    obtain ⟨on, live⟩ := locked.holding c b holds
    refine ⟨on, ?_⟩
    show Function.update s.live a true b = true
    rw [Function.update_apply]
    split
    · rfl
    · exact live

theorem acquire (locked : Locked cpus s o) {cpu a : Nat} (on : cpu < cpus)
    (outside : s.pc cpu = none) (live : s.live a = true) (t0 : BitVec 32) :
    Locked cpus { s with
      pc := Function.update s.pc cpu (some (a, .ll))
      t0 := Function.update s.t0 cpu t0 } o where
  word := locked.word
  owner := by
    intro c b
    rw [← locked.owner c b, Spin.Owns, Spin.Owns]
    by_cases same : c = cpu
    · subst same
      simp [outside, AcquirePc.Past]
    · simp [Function.update_of_ne same]
  trying := by
    intro c b i trying
    change Function.update s.pc cpu (some (a, .ll)) c = some (b, i) at trying
    show c < cpus ∧ s.live b = true ∧ Knows s.memory c b (Function.update s.t0 cpu t0 c) i
    by_cases same : c = cpu
    · rw [same, Function.update_self] at trying
      cases trying
      exact ⟨same ▸ on, live, trivial⟩
    · rw [Function.update_of_ne same] at trying ⊢
      exact locked.trying c b i trying
  holding := locked.holding

theorem release (locked : Locked cpus s o) {cpu a : Nat} (outside : s.pc cpu = none)
    (holds : s.holds cpu a = true) :
    Locked cpus { s with
      memory := spinlockRelease s.memory cpu a
      holds := Function.update s.holds cpu (Function.update (s.holds cpu) a false) }
      (Function.update o a none) where
  word := by
    intro b live
    show Function.update s.memory.word a 0 b = _
    by_cases same : b = a
    · rw [same, Function.update_self, Function.update_self, if_pos rfl]
    · rw [Function.update_of_ne same, Function.update_of_ne same]
      exact locked.word b live
  owner := by
    intro c b
    have mine := (locked.owner cpu a).1 (.inl holds)
    have before := locked.owner c b
    rw [Spin.Owns] at before ⊢
    by_cases lock : b = a
    · subst lock
      rw [Function.update_self]
      refine iff_of_false ?_ (by simp)
      rintro (other | past)
      · by_cases same : c = cpu
        · subst same
          simp at other
        · simp only [Function.update_of_ne same] at other
          exact same (Option.some.inj ((before.1 (.inl other)).symm.trans mine))
      · have same : c = cpu := Option.some.inj ((before.1 (.inr past)).symm.trans mine)
        rw [same, outside] at past
        simp at past
    · rw [Function.update_of_ne lock, ← before]
      by_cases same : c = cpu
      · subst same
        simp [Function.update_of_ne lock]
      · simp [Function.update_of_ne same]
  trying := by
    intro c b i trying
    obtain ⟨on, live, knows⟩ := locked.trying c b i trying
    have other : c ≠ cpu := by
      rintro rfl
      rw [outside] at trying
      cases trying
    exact ⟨on, live, knows.mono fun v sees => sees.store other⟩
  holding := by
    intro c b held
    apply locked.holding c b
    change Function.update s.holds cpu _ c b = true at held
    by_cases same : c = cpu
    · subst same
      rw [Function.update_self] at held
      by_cases lock : b = a
      · subst lock
        exact holds
      · rwa [Function.update_of_ne lock] at held
    · rwa [Function.update_of_ne same] at held

theorem lose (locked : Locked cpus s o) (cpu : Nat) :
    Locked cpus { s with memory := s.memory.lose cpu } o where
  word := locked.word
  owner := locked.owner
  trying := by
    intro c b i trying
    obtain ⟨on, live, knows⟩ := locked.trying c b i trying
    exact ⟨on, live, knows.mono fun v sees => sees.lose⟩
  holding := locked.holding

/-- An instruction that neither takes the lock nor returns. -/
theorem moves (locked : Locked cpus s o) {cpu a : Nat} {i j : AcquirePc}
    (trying : s.pc cpu = some (a, i)) {m : LockMemory} {t0 : BitVec 32}
    (word : m.word = s.memory.word)
    (others : ∀ c, c ≠ cpu → ∀ b v, s.memory.Sees c b v → m.Sees c b v)
    (knows : Knows m cpu a t0 j) (past : j.Past t0 ↔ i.Past (s.t0 cpu)) :
    Locked cpus { s with
      memory := m
      t0 := Function.update s.t0 cpu t0
      pc := Function.update s.pc cpu (some (a, j)) } o where
  word := by
    intro b live
    show m.word b = _
    rw [word]
    exact locked.word b live
  owner := by
    intro c b
    rw [← locked.owner c b, Spin.Owns, Spin.Owns]
    by_cases same : c = cpu
    · subst same
      simp only [Function.update_self, trying, Option.some.injEq, Prod.mk.injEq]
      refine or_congr Iff.rfl ⟨?_, ?_⟩
      · rintro ⟨k, ⟨rfl, rfl⟩, after⟩
        exact ⟨i, ⟨rfl, rfl⟩, past.1 after⟩
      · rintro ⟨k, ⟨rfl, rfl⟩, before⟩
        exact ⟨j, ⟨rfl, rfl⟩, past.2 before⟩
    · simp [Function.update_of_ne same]
  trying := by
    intro c b k there
    change Function.update s.pc cpu (some (a, j)) c = some (b, k) at there
    show c < cpus ∧ s.live b = true ∧ Knows m c b (Function.update s.t0 cpu t0 c) k
    by_cases same : c = cpu
    · rw [same, Function.update_self] at there
      cases there
      rw [same, Function.update_self]
      obtain ⟨on, live, -⟩ := locked.trying cpu a i trying
      exact ⟨on, live, knows⟩
    · rw [Function.update_of_ne same] at there ⊢
      obtain ⟨on, live, before⟩ := locked.trying c b k there
      exact ⟨on, live, before.mono fun v => others c same b v⟩
  holding := locked.holding

/-- The `sc` that takes the lock. -/
theorem takes (locked : Locked cpus s o) {cpu a : Nat} (trying : s.pc cpu = some (a, .sc))
    (linked : s.memory.link cpu = some a) :
    o a = none ∧ Locked cpus { s with
      memory := (s.memory.store cpu a 1).lose cpu
      t0 := Function.update s.t0 cpu 1
      pc := Function.update s.pc cpu (some (a, .beqz)) } (Function.update o a (some cpu)) := by
  obtain ⟨on, live, -, sees⟩ := locked.trying cpu a .sc trying
  have free : o a = none := by
    by_contra owned
    have word := locked.word a live
    rw [sees linked, if_neg owned] at word
    exact absurd word (by decide)
  refine ⟨free, ?_⟩
  exact
    { word := by
        intro b alive
        show Function.update s.memory.word a 1 b = _
        by_cases same : b = a
        · rw [same, Function.update_self, Function.update_self, if_neg (by simp)]
        · rw [Function.update_of_ne same, Function.update_of_ne same]
          exact locked.word b alive
      owner := by
        intro c b
        have before := locked.owner c b
        rw [Spin.Owns] at before ⊢
        by_cases same : c = cpu
        · subst same
          simp only [Function.update_self, trying, Option.some.injEq, Prod.mk.injEq] at before ⊢
          by_cases lock : b = a
          · subst lock
            rw [Function.update_self]
            refine iff_of_true (.inr ⟨.beqz, ⟨rfl, rfl⟩, ?_⟩) rfl
            show (1 : BitVec 32) ≠ 0
            decide
          · rw [Function.update_of_ne lock, ← before]
            refine or_congr Iff.rfl (iff_of_false ?_ ?_)
            · rintro ⟨k, ⟨rfl, -⟩, -⟩
              exact lock rfl
            · rintro ⟨k, ⟨rfl, -⟩, -⟩
              exact lock rfl
        · simp only [Function.update_of_ne same]
          rw [before]
          by_cases lock : b = a
          · subst lock
            rw [Function.update_self, free]
            exact iff_of_false (by simp) fun bad => same (Option.some.inj bad).symm
          · rw [Function.update_of_ne lock]
      trying := by
        intro c b k there
        change Function.update s.pc cpu (some (a, .beqz)) c = some (b, k) at there
        show c < cpus ∧ s.live b = true ∧ Knows _ c b (Function.update s.t0 cpu 1 c) k
        by_cases same : c = cpu
        · rw [same, Function.update_self] at there
          cases there
          rw [same, Function.update_self]
          exact ⟨on, live, .inr rfl⟩
        · rw [Function.update_of_ne same] at there ⊢
          obtain ⟨on, live, before⟩ := locked.trying c b k there
          exact ⟨on, live, before.mono fun v sees => (sees.store same).lose⟩
      holding := locked.holding }

/-- The return of `spinlock_acquire`. -/
theorem returns (locked : Locked cpus s o) {cpu a : Nat} (trying : s.pc cpu = some (a, .jr)) :
    Locked cpus { s with
      t0 := Function.update s.t0 cpu (s.t0 cpu)
      pc := Function.update s.pc cpu none
      holds := Function.update s.holds cpu (Function.update (s.holds cpu) a true) } o where
  word := locked.word
  owner := by
    intro c b
    rw [← locked.owner c b, Spin.Owns, Spin.Owns]
    by_cases same : c = cpu
    · subst same
      simp only [Function.update_self, trying, Option.some.injEq, Prod.mk.injEq]
      by_cases lock : b = a
      · subst lock
        rw [Function.update_self]
        exact iff_of_true (.inl rfl) (.inr ⟨.jr, ⟨rfl, rfl⟩, trivial⟩)
      · rw [Function.update_of_ne lock]
        refine or_congr Iff.rfl (iff_of_false (by simp) ?_)
        rintro ⟨k, ⟨rfl, -⟩, -⟩
        exact lock rfl
    · simp [Function.update_of_ne same]
  trying := by
    intro c b k there
    change Function.update s.pc cpu none c = some (b, k) at there
    show c < cpus ∧ s.live b = true ∧ Knows _ c b (Function.update s.t0 cpu _ c) k
    by_cases same : c = cpu
    · rw [same, Function.update_self] at there
      cases there
    · rw [Function.update_of_ne same] at there ⊢
      exact locked.trying c b k there
  holding := by
    intro c b held
    change Function.update s.holds cpu _ c b = true at held
    show c < cpus ∧ s.live b = true
    by_cases same : c = cpu
    · subst same
      rw [Function.update_self] at held
      by_cases lock : b = a
      · subst lock
        obtain ⟨on, live, -⟩ := locked.trying c b .jr trying
        exact ⟨on, live⟩
      · rw [Function.update_of_ne lock] at held
        exact locked.holding c b held
    · rw [Function.update_of_ne same] at held
      exact locked.holding c b held

/-- **One instruction** keeps the invariant, and the owners change at the `sc`. -/
theorem instr (locked : Locked cpus s o) {cpu : Nat} {t : Spin}
    (taken : spinStep cpus s (.instr cpu) = some t) :
    ∃ o', lockSystem.exec o (s.view (.instr cpu)) = some o' ∧ Locked cpus t o' := by
  simp only [spinStep] at taken
  split at taken
  · cases taken
  · rename_i a i trying
    obtain ⟨on, live, knows⟩ := locked.trying cpu a i trying
    rw [Option.some.injEq] at taken
    subst taken
    simp only [Spin.view, trying]
    cases i with
    | ll =>
        exact ⟨o, rfl, locked.moves trying rfl (fun c other b v sees => sees.loadLinked other)
          LinkedMemory.sees_loadLinked (by simp [AcquirePc.Past])⟩
    | bnez =>
        refine ⟨o, rfl, locked.moves trying rfl (fun _ _ _ _ sees => sees) ?_ ?_⟩
        · by_cases taken : s.t0 cpu = 0
          · rw [if_neg (not_not_intro taken)]
            exact fun linked => (knows linked).trans taken
          · rw [if_pos taken]
            trivial
        · split <;> simp [AcquirePc.Past]
    | li =>
        exact ⟨o, rfl, locked.moves trying rfl (fun _ _ _ _ sees => sees) ⟨rfl, knows⟩
          (by simp [AcquirePc.Past])⟩
    | sc =>
        by_cases linked : s.memory.link cpu = some a
        · obtain ⟨free, locked⟩ := locked.takes trying linked
          refine ⟨Function.update o a (some cpu), ?_, ?_⟩
          · simp only [if_pos linked, System.exec, lockSystem, if_pos free, Option.bind_some]
          · simp only [acquireStep, knows.1, LinkedMemory.storeConditional_linked linked]
            exact locked
        · refine ⟨o, by simp only [if_neg linked, System.exec], ?_⟩
          simp only [acquireStep, LinkedMemory.storeConditional_unlinked linked]
          exact locked.moves trying rfl (fun _ _ _ _ sees => sees.lose) (.inl rfl)
            (by simp [AcquirePc.Past])
    | beqz =>
        refine ⟨o, rfl, locked.moves trying rfl (fun _ _ _ _ sees => sees) ?_ ?_⟩
        · split <;> trivial
        · split
          · rename_i failed
            simp [AcquirePc.Past, failed]
          · rename_i done
            exact iff_of_true trivial done
    | jr => exact ⟨o, rfl, locked.returns trying⟩

end Locked

/-- The lock words and the loops of `spinlock_acquire` are a forward simulation of the owners. -/
theorem spin_refines (cpus : Nat) :
    System.Refines (spinSystem cpus) lockSystem Spin.view (Locked cpus) where
  start s first := ⟨fun _ => none, rfl, Locked.start first⟩
  step := by
    intro s t a o locked taken
    change spinStep cpus s a = some t at taken
    cases a with
    | reset cpu a =>
        simp only [spinStep] at taken
        split at taken
        · rename_i may
          cases taken
          exact ⟨o, rfl, locked.reset may.2.1 may.2.2⟩
        · cases taken
    | acquire cpu a t0 =>
        simp only [spinStep] at taken
        split at taken
        · rename_i may
          cases taken
          exact ⟨o, rfl, locked.acquire may.1 may.2.1 may.2.2 t0⟩
        · cases taken
    | instr cpu => exact locked.instr taken
    | release cpu a =>
        simp only [spinStep] at taken
        split at taken
        · rename_i may
          cases taken
          refine ⟨Function.update o a none, ?_, locked.release may.2.1 may.2.2⟩
          simp only [Spin.view, System.exec, lockSystem,
            if_pos ((locked.owner cpu a).1 (.inl may.2.2)), Option.bind_some]
        · cases taken
    | lose cpu =>
        cases taken
        exact ⟨o, rfl, locked.lose cpu⟩

/-- **A spinlock is a lock.**  Whatever the order in which any number of CPUs execute the
instructions of `spinlock_acquire` and `spinlock_release`, and whenever links are lost, the
successful `sc`s and the releases are a run of `lockSystem`: a lock is acquired only when
nobody owns it, and released only by its owner.  A CPU that has returned from
`spinlock_acquire` owns the lock until it releases it, so no other CPU has it too, and the
word of a lock is 0 exactly when nobody owns it. -/
theorem spinlock_refines (cpus : Nat) {s t : Spin} {as : List SpinAction}
    (first : (spinSystem cpus).initial s) (ran : (spinSystem cpus).exec s as = some t) :
    ∃ o, lockSystem.exec (fun _ => none) ((spinSystem cpus).shown Spin.view s as) = some o ∧
      (∀ c a, t.holds c a = true → o a = some c) ∧
      (∀ c k a, t.holds c a = true → t.holds k a = true → c = k) ∧
      ∀ a, t.live a = true → (t.memory.word a = 0 ↔ o a = none) := by
  obtain ⟨o, shown, locked⟩ := (spin_refines cpus).exec (Locked.start first) ran
  have owner : ∀ c a, t.holds c a = true → o a = some c := fun c a holds =>
    (locked.owner c a).1 (.inl holds)
  refine ⟨o, shown, owner, ?_, ?_⟩
  · intro c k a mine yours
    exact Option.some.inj ((owner c a mine).symm.trans (owner k a yours))
  · intro a live
    rw [locked.word a live]
    by_cases free : o a = none
    · simp [free]
    · rw [if_neg free]
      exact iff_of_false (by decide) free

/-! ## Progress -/

/-- How many instructions a CPU is away from the `sc` that takes a free lock. -/
def Spin.away (s : Spin) (c a : Nat) : AcquirePc → Nat
  | .ll => 4
  | .bnez => if s.t0 c ≠ 0 then 5 else if s.memory.link c = some a then 3 else 8
  | .li => if s.memory.link c = some a then 2 else 7
  | .sc => if s.memory.link c = some a then 1 else 6
  | .beqz => 5
  | .jr => 0

/-- A free lock that nobody acquires stays free. -/
theorem free_exec {o o' : Owners} {a : Nat} {l : List LockAction}
    (ran : lockSystem.exec o l = some o') (free : o a = none)
    (nobody : ∀ k, LockAction.acquire k a ∉ l) : o' a = none := by
  induction l generalizing o with
  | nil =>
      simp only [System.exec, Option.some.injEq] at ran
      rw [← ran]
      exact free
  | cons x l ih =>
      simp only [System.exec, Option.bind_eq_some_iff] at ran
      obtain ⟨m, taken, rest⟩ := ran
      apply ih rest _ fun k later => nobody k (List.mem_cons_of_mem _ later)
      cases x with
      | acquire k b =>
          have other : a ≠ b := by
            rintro rfl
            exact nobody k List.mem_cons_self
          simp only [lockSystem] at taken
          split at taken
          · cases taken
            rw [Function.update_of_ne other]
            exact free
          · cases taken
      | release k b =>
          simp only [lockSystem] at taken
          split at taken
          · cases taken
            by_cases same : a = b
            · rw [same, Function.update_self]
            · rw [Function.update_of_ne same]
              exact free
          · cases taken

namespace Locked

variable {cpus : Nat} {s t : Spin} {o : Owners} {c a : Nat} {i : AcquirePc}

/-- A CPU that tries a free lock is not past its `sc`. -/
theorem not_past (locked : Locked cpus s o) (trying : s.pc c = some (a, i)) (free : o a = none) :
    ¬ i.Past (s.t0 c) := fun past => by
  rw [(locked.owner c a).1 (.inr ⟨i, trying, past⟩)] at free
  cases free

theorem away_bounds (locked : Locked cpus s o) (trying : s.pc c = some (a, i)) (free : o a = none) :
    1 ≤ s.away c a i ∧ s.away c a i ≤ 8 := by
  have before := locked.not_past trying free
  cases i with
  | jr => exact absurd trivial before
  | ll | beqz => simp [Spin.away]
  | bnez | li | sc =>
      simp only [Spin.away]
      repeat' split
      all_goals omega

/-- An instruction of a CPU that tries a free lock brings it closer. -/
theorem away_instr (locked : Locked cpus s o) (trying : s.pc c = some (a, i)) (free : o a = none)
    (taken : spinStep cpus s (.instr c) = some t)
    (nobody : LockAction.acquire c a ∉ s.view (.instr c)) :
    ∃ j, t.pc c = some (a, j) ∧ t.away c a j + 1 ≤ s.away c a i := by
  obtain ⟨-, live, knows⟩ := locked.trying c a i trying
  have before := locked.not_past trying free
  have word : s.memory.word a = 0 := by rw [locked.word a live, if_pos free]
  simp only [spinStep, trying, Option.some.injEq] at taken
  subst taken
  cases i with
  | ll =>
      refine ⟨.bnez, Function.update_self .., ?_⟩
      simp [Spin.away, acquireStep, word, LinkedMemory.loadLinked]
  | bnez =>
      refine ⟨_, Function.update_self .., ?_⟩
      by_cases zero : s.t0 c = 0
      · simp only [Spin.away, acquireStep, zero, ne_eq, not_true_eq_false, if_false]
        split <;> omega
      · simp only [Spin.away, ne_eq, zero, not_false_eq_true, if_true]
        omega
  | li =>
      refine ⟨.sc, Function.update_self .., ?_⟩
      by_cases linked : s.memory.link c = some a <;> simp [Spin.away, acquireStep, linked]
  | sc =>
      have lost : s.memory.link c ≠ some a := by
        intro linked
        apply nobody
        simp [Spin.view, trying, linked]
      refine ⟨.beqz, Function.update_self .., ?_⟩
      simp [Spin.away, if_neg lost]
  | beqz =>
      have zero : s.t0 c = 0 := not_not.1 before
      refine ⟨.ll, ?_, by simp [Spin.away]⟩
      simp [acquireStep, zero]
  | jr => exact absurd trivial before

/-- Nothing else takes it further away, but a lost link. -/
theorem away_other (locked : Locked cpus s o) (trying : s.pc c = some (a, i)) (free : o a = none)
    {act : SpinAction} (taken : spinStep cpus s act = some t) (other : act ≠ .instr c)
    (kept : act ≠ .lose c) (nobody : ∀ k, LockAction.acquire k a ∉ s.view act) :
    t.pc c = some (a, i) ∧ t.away c a i = s.away c a i := by
  obtain ⟨on, live, -⟩ := locked.trying c a i trying
  have congr : t.pc c = s.pc c → t.t0 c = s.t0 c →
      (t.memory.link c = some a ↔ s.memory.link c = some a) →
      t.pc c = some (a, i) ∧ t.away c a i = s.away c a i := by
    intro pc t0 link
    refine ⟨pc.trans trying, ?_⟩
    cases i <;> simp only [Spin.away, t0, link]
  have busy : ∀ k, s.pc k = none → c ≠ k := by
    rintro k outside rfl
    rw [outside] at trying
    cases trying
  cases act with
  | reset k b =>
      simp only [spinStep] at taken
      split at taken
      · rename_i may
        cases taken
        have elsewhere : b ≠ a := by
          rintro rfl
          have := (may.2.2 c on).2
          rw [trying] at this
          exact this rfl
        exact congr rfl rfl (LinkedMemory.link_store_other elsewhere)
      · cases taken
  | acquire k b t0 =>
      simp only [spinStep] at taken
      split at taken
      · rename_i may
        cases taken
        have ne := busy k may.2.1
        exact congr (Function.update_of_ne ne _ _) (Function.update_of_ne ne _ _) Iff.rfl
      · cases taken
  | instr k =>
      have ne : c ≠ k := by
        rintro rfl
        exact other rfl
      simp only [spinStep] at taken
      split at taken
      · cases taken
      · rename_i b j theirs
        rw [Option.some.injEq] at taken
        subst taken
        refine congr (Function.update_of_ne ne _ _) (Function.update_of_ne ne _ _) ?_
        cases j with
        | bnez | li | beqz | jr => exact Iff.rfl
        | ll => simp only [acquireStep, LinkedMemory.link_loadLinked_other ne]
        | sc =>
            by_cases linked : s.memory.link k = some b
            · have elsewhere : b ≠ a := by
                rintro rfl
                apply nobody k
                simp [Spin.view, theirs, linked]
              simp only [acquireStep, LinkedMemory.storeConditional_linked linked,
                LinkedMemory.link_lose_other ne]
              exact LinkedMemory.link_store_other elsewhere
            · simp only [acquireStep, LinkedMemory.storeConditional_unlinked linked,
                LinkedMemory.link_lose_other ne]
  | release k b =>
      simp only [spinStep] at taken
      split at taken
      · rename_i may
        cases taken
        have elsewhere : b ≠ a := by
          rintro rfl
          rw [(locked.owner k b).1 (.inl may.2.2)] at free
          cases free
        exact congr rfl rfl (LinkedMemory.link_store_other elsewhere)
      · cases taken
  | lose k =>
      have ne : c ≠ k := by
        rintro rfl
        exact kept rfl
      cases taken
      exact congr rfl rfl (by rw [LinkedMemory.link_lose_other ne])

/-- While nobody acquires a free lock, a CPU that tries it executes few instructions. -/
theorem away_exec (locked : Locked cpus s o) (trying : s.pc c = some (a, i)) (free : o a = none)
    {as : List SpinAction} (ran : (spinSystem cpus).exec s as = some t) (kept : .lose c ∉ as)
    (nobody : ∀ k, LockAction.acquire k a ∉ (spinSystem cpus).shown Spin.view s as) :
    as.count (.instr c) < s.away c a i := by
  induction as generalizing s o i with
  | nil => exact (locked.away_bounds trying free).1
  | cons act as ih =>
      simp only [System.exec, Option.bind_eq_some_iff] at ran
      obtain ⟨u, taken, rest⟩ := ran
      have now : ∀ k, LockAction.acquire k a ∉ s.view act := fun k there =>
        nobody k (List.mem_append_left _ there)
      have later : ∀ k, LockAction.acquire k a ∉ (spinSystem cpus).shown Spin.view u as := by
        intro k there
        apply nobody k
        rw [System.shown, taken]
        exact List.mem_append_right _ there
      obtain ⟨o', shown, locked'⟩ := (spin_refines cpus).step s u act o locked taken
      have free' := free_exec shown free now
      have kept' : SpinAction.lose c ∉ as := fun there => kept (List.mem_cons_of_mem _ there)
      by_cases own : act = .instr c
      · subst own
        obtain ⟨j, trying', closer⟩ := locked.away_instr trying free taken (now c)
        have := ih locked' trying' free' rest kept' later
        rw [List.count_cons_self]
        omega
      · obtain ⟨trying', same⟩ := locked.away_other trying free taken own
          (fun lost => kept (lost ▸ List.mem_cons_self)) now
        have := ih locked' trying' free' rest kept' later
        rw [List.count_cons_of_ne own]
        omega

end Locked

/-- **A free lock is taken.**  A CPU in the loop of `spinlock_acquire` keeps its links except
where other CPUs' stores end them.  If the lock is free and the CPU executes eight of its
instructions, with any instructions of other CPUs in between, then by the last of them that
CPU or a faster one has acquired the lock. -/
theorem spinlock_progress (cpus : Nat) {s t : Spin} {as : List SpinAction} {c a : Nat}
    {i : AcquirePc} (reached : (spinSystem cpus).Reachable s) (trying : s.pc c = some (a, i))
    (free : s.memory.word a = 0) (ran : (spinSystem cpus).exec s as = some t)
    (kept : SpinAction.lose c ∉ as) (enough : 8 ≤ as.count (.instr c)) :
    ∃ k, LockAction.acquire k a ∈ (spinSystem cpus).shown Spin.view s as := by
  obtain ⟨o, -, locked⟩ := (spin_refines cpus).reachable reached
  by_contra nobody
  rw [not_exists] at nobody
  have unowned : o a = none := by
    by_contra owned
    rw [locked.word a (locked.trying c a i trying).2.1, if_neg owned] at free
    exact absurd free (by decide)
  have few := locked.away_exec trying unowned ran kept nobody
  have bound := (locked.away_bounds trying unowned).2
  omega

/-- All CPUs outside, before the first reset. -/
def Spin.boot : Spin where
  memory := ⟨fun _ => 0xdeadbeef, fun _ => none⟩
  pc _ := none
  t0 _ := 7
  holds _ _ := false
  live _ := false

/-- Two CPUs acquire a lock at once; the second `ll` does not end the first CPU's link, the
first `sc` ends the second CPU's. -/
theorem spinlock_refines_two :
    ∃ t o, (spinSystem 2).exec Spin.boot
        [.reset 0 64, .acquire 0 64 7, .acquire 1 64 9, .instr 0, .instr 1, .instr 0, .instr 1,
          .instr 0, .instr 1, .instr 0, .instr 1, .instr 0, .instr 0] = some t ∧
      lockSystem.exec (fun _ => none) [.acquire 0 64] = some o ∧ o 64 = some 0 := by
  have ran : ((spinSystem 2).exec Spin.boot
      [.reset 0 64, .acquire 0 64 7, .acquire 1 64 9, .instr 0, .instr 1, .instr 0, .instr 1,
        .instr 0, .instr 1, .instr 0, .instr 1, .instr 0, .instr 0]).any
      (fun t => t.holds 0 64) = true := by decide
  obtain ⟨t, taken, holds⟩ := (Option.any_eq_true _ _).1 ran
  obtain ⟨o, shown, owner, -⟩ :=
    spinlock_refines 2 (s := Spin.boot) ⟨fun _ => rfl, fun _ _ => rfl, fun _ => rfl⟩ taken
  exact ⟨t, o, taken, shown, owner 0 64 holds⟩

/-- The second CPU executes eight instructions while the first one acquires the lock. -/
theorem spinlock_progress_two :
    ∃ s t, (spinSystem 2).exec Spin.boot [.reset 0 64, .acquire 0 64 7, .acquire 1 64 9] = some s ∧
      (spinSystem 2).exec s (.instr 0 :: (List.replicate 3 (.instr 1) ++
        (List.replicate 3 (.instr 0) ++ List.replicate 5 (.instr 1)))) = some t ∧
      ∃ k, LockAction.acquire k 64 ∈ (spinSystem 2).shown Spin.view s
        (.instr 0 :: (List.replicate 3 (.instr 1) ++
          (List.replicate 3 (.instr 0) ++ List.replicate 5 (.instr 1)))) := by
  have ran : ((spinSystem 2).exec Spin.boot
      [.reset 0 64, .acquire 0 64 7, .acquire 1 64 9]).any (fun s =>
        s.pc 1 = some (64, .ll) ∧ s.memory.word 64 = 0 ∧
        ((spinSystem 2).exec s (.instr 0 :: (List.replicate 3 (.instr 1) ++
          (List.replicate 3 (.instr 0) ++ List.replicate 5 (.instr 1))))).isSome) = true := by
    decide
  obtain ⟨s, reached, facts⟩ := (Option.any_eq_true _ _).1 ran
  obtain ⟨trying, free, goes⟩ := of_decide_eq_true facts
  obtain ⟨t, taken⟩ := Option.isSome_iff_exists.1 goes
  have run := (System.Reachable.start (M := spinSystem 2) (s := Spin.boot)
    ⟨fun _ => rfl, fun _ _ => rfl, fun _ => rfl⟩).exec reached
  exact ⟨s, t, reached, taken,
    spinlock_progress 2 run trying free taken (by decide) (by decide)⟩

end Buenos.Kernel
