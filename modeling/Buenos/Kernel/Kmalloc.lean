/-
# Kernel.Kmalloc -- memory that is never given back

kernel/kmalloc.c: the free area behind the kernel image, from which `kmalloc` gives out
memory until `vm_init` makes the rest into pages.  Addresses are those of the unmapped
segment, where physical memory starts at 0x80000000; `physOf` is the physical address, and
the arithmetic is that of 32-bit words.
-/
import Buenos.Lib.Libc
import Buenos.Theory.Memory
import Buenos.Theory.Prog
import Mathlib.Data.Nat.Bitwise

namespace Buenos.Kernel

open Buenos.Theory

set_option autoImplicit false

def KERNEL_BOOT_ADDRESS : BitVec 32 := 0x80010000

structure Kmalloc where
  freeAreaStart : BitVec 32
  memoryEnd : BitVec 32

/-- The next address on a word boundary. -/
def wordAlign (addr : BitVec 32) : BitVec 32 :=
  if addr &&& 0x03#32 ≠ 0 then (addr + 4#32) &&& 0xfffffffc#32 else addr

/-- `kernelEnd` is the address of `KERNEL_ENDS_HERE`. -/
def kmallocInit (numPages : Nat) (kernelEnd : BitVec 32) : Kmalloc where
  freeAreaStart := wordAlign kernelEnd
  memoryEnd := 0x80000000#32 + BitVec.ofNat 32 numPages * 4096#32

def kmalloc (bytes : Int) : Prog Kmalloc (BitVec 32) := do
  let start ← Prog.gets fun s => s.freeAreaStart
  Prog.assert (fun _ => start ≠ 0xffffffff#32) .assertion
  Prog.assert (fun _ => start ≠ 0) .assertion
  Prog.assert (fun _ => 0 ≤ bytes) .assertion
  Prog.assert (fun s => (start + BitVec.ofInt 32 bytes).toNat ≤ s.memoryEnd.toNat) .assertion
  Prog.modify fun s => { s with freeAreaStart := wordAlign (start + BitVec.ofInt 32 bytes) }
  pure start

def kmallocGetReservedPages (s : Kmalloc) : Nat :=
  let size := (s.freeAreaStart - 0x80000000#32).toNat
  if size % 4096 ≠ 0 then size / 4096 + 1 else size / 4096

def kmallocDisable : Prog Kmalloc Unit :=
  Prog.modify fun s => { s with freeAreaStart := 0xffffffff#32 }

/-- A piece of memory that `kmalloc` gave out. -/
structure Region where
  start : BitVec 32
  bytes : Nat

/-- The calls of `kmalloc` before `vm_init`. -/
def kmallocs : List Int → Prog Kmalloc (List Region)
  | [] => pure []
  | bytes :: rest => do
      let start ← kmalloc bytes
      let regions ← kmallocs rest
      pure ({ start := start, bytes := bytes.toNat } :: regions)

/-! ## Word boundaries -/

/-- The physical address behind an address of the unmapped segment. -/
def physOf (addr : BitVec 32) : Nat := (addr - 0x80000000#32).toNat

theorem physOf_eq (addr : BitVec 32) :
    physOf addr = (addr.toNat + 0x80000000) % 0x100000000 := by
  rw [physOf, BitVec.toNat_sub, Nat.add_comm]
  rfl

theorem physOf_wordAlign {addr : BitVec 32} (room : physOf addr + 3 < 0x100000000) :
    physOf (wordAlign addr) = (physOf addr + 3) / 4 * 4 := by
  have small := addr.isLt
  have low : addr &&& 0x03#32 ≠ 0 ↔ addr.toNat % 4 ≠ 0 := by
    rw [← toNat_and_three, ne_eq, ← BitVec.toNat_inj]
    rfl
  rw [physOf_eq] at room
  rw [physOf_eq, physOf_eq, wordAlign]
  split
  · rename_i unaligned
    have rest := low.1 unaligned
    rw [toNat_and_not_three, BitVec.toNat_add, show (4#32).toNat = 4 by rfl]
    omega
  · rename_i aligned
    have rest := Decidable.not_not.1 (mt low.2 aligned)
    omega

/-- What a request takes from the free area. -/
def padded (bytes : Int) : Nat := (bytes.toNat + 3) / 4 * 4

/-- What the requests take together. -/
def staticSize (amounts : List Int) : Nat := (amounts.map padded).sum

theorem staticSize_mod (amounts : List Int) : staticSize amounts % 4 = 0 := by
  induction amounts with
  | nil => rfl
  | cons bytes rest ih =>
      have words : padded bytes % 4 = 0 := Nat.mul_mod_left _ 4
      have total : staticSize (bytes :: rest) = padded bytes + staticSize rest := by
        simp [staticSize]
      omega

theorem physOf_add {start : BitVec 32} {bytes : Int} (nonneg : 0 ≤ bytes)
    (room : physOf start + bytes.toNat < 0x100000000) :
    physOf (start + BitVec.ofInt 32 bytes) = physOf start + bytes.toNat := by
  have small := start.isLt
  rw [physOf_eq] at room
  rw [physOf_eq, physOf_eq, BitVec.toNat_add, BitVec.toNat_ofInt]
  omega

/-! ## What is given out -/

/-- A region lies between two physical addresses. -/
def Region.Within (region : Region) (low high : Nat) : Prop :=
  low ≤ physOf region.start ∧ physOf region.start + region.bytes ≤ high

theorem kmalloc_returned {bytes : Int} {s t : Kmalloc} {start : BitVec 32}
    (ran : kmalloc bytes s = .returned (start, t)) :
    0 ≤ bytes ∧ start = s.freeAreaStart ∧
      t.freeAreaStart = wordAlign (start + BitVec.ofInt 32 bytes) := by
  simp only [kmalloc, Prog.bind_gets_apply, Prog.bind_assert_apply, Prog.bind_modify_apply,
    Prog.pure_apply] at ran
  split at ran
  · split at ran
    · split at ran
      · rename_i nonneg
        split at ran
        · cases ran
          exact ⟨by simpa using nonneg, rfl, rfl⟩
        · cases ran
      · cases ran
    · cases ran
  · cases ran

/-- A request fits, and the end of the memory stays. -/
theorem kmalloc_memoryEnd {bytes : Int} {s t : Kmalloc} {start : BitVec 32}
    (ran : kmalloc bytes s = .returned (start, t)) :
    (s.freeAreaStart + BitVec.ofInt 32 bytes).toNat ≤ s.memoryEnd.toNat ∧ t.memoryEnd = s.memoryEnd := by
  simp only [kmalloc, Prog.bind_gets_apply, Prog.bind_assert_apply, Prog.bind_modify_apply,
    Prog.pure_apply] at ran
  split at ran
  · split at ran
    · split at ran
      · split at ran
        · rename_i fits
          cases ran
          exact ⟨of_decide_eq_true fits, rfl⟩
        · cases ran
      · cases ran
    · cases ran
  · cases ran

theorem kmallocs_memoryEnd {amounts : List Int} {s t : Kmalloc} {regions : List Region}
    (ran : kmallocs amounts s = .returned (regions, t)) : t.memoryEnd = s.memoryEnd := by
  induction amounts generalizing s regions with
  | nil =>
      cases ran
      rfl
  | cons bytes rest ih =>
      obtain ⟨start, s₁, first, ran⟩ := Prog.bind_returned.1 ran
      obtain ⟨others, s₂, second, ran⟩ := Prog.bind_returned.1 ran
      cases ran
      exact (ih second).trans (kmalloc_memoryEnd first).2

/-- One request: the region given out starts where the free area started, and the free
area now starts on the next word boundary behind it. -/
theorem kmalloc_region {bytes : Int} {s t : Kmalloc} {start : BitVec 32}
    (ran : kmalloc bytes s = .returned (start, t)) (aligned : physOf s.freeAreaStart % 4 = 0)
    (room : physOf s.freeAreaStart + padded bytes < 0x100000000) :
    physOf t.freeAreaStart = physOf s.freeAreaStart + padded bytes ∧
      Region.Within { start := start, bytes := bytes.toNat } (physOf s.freeAreaStart)
        (physOf t.freeAreaStart) := by
  obtain ⟨nonneg, rfl, next⟩ := kmalloc_returned ran
  simp only [padded] at room ⊢
  have sum : physOf (s.freeAreaStart + BitVec.ofInt 32 bytes) =
      physOf s.freeAreaStart + bytes.toNat := physOf_add nonneg (by omega)
  have place : physOf t.freeAreaStart =
      (physOf s.freeAreaStart + bytes.toNat + 3) / 4 * 4 := by
    rw [next, physOf_wordAlign (by omega), sum]
  refine ⟨by omega, Nat.le_refl _, ?_⟩
  change physOf s.freeAreaStart + bytes.toNat ≤ _
  omega

/-- **Static memory.**  As long as the free area stays in memory, the regions given out lie
behind the kernel image and before the free area. -/
theorem kmallocs_regions {amounts : List Int} {s t : Kmalloc} {regions : List Region}
    (ran : kmallocs amounts s = .returned (regions, t))
    (aligned : physOf s.freeAreaStart % 4 = 0)
    (room : physOf s.freeAreaStart + staticSize amounts < 0x100000000) :
    physOf t.freeAreaStart = physOf s.freeAreaStart + staticSize amounts ∧
      ∀ region ∈ regions, region.Within (physOf s.freeAreaStart) (physOf t.freeAreaStart) := by
  induction amounts generalizing s regions with
  | nil =>
      cases ran
      exact ⟨rfl, nofun⟩
  | cons bytes rest ih =>
      have total : staticSize (bytes :: rest) = padded bytes + staticSize rest := by
        simp [staticSize]
      rw [total] at room
      obtain ⟨start, s₁, first, ran⟩ := Prog.bind_returned.1 ran
      obtain ⟨others, s₂, second, ran⟩ := Prog.bind_returned.1 ran
      cases ran
      obtain ⟨next, within⟩ := kmalloc_region first aligned (by omega)
      have words : padded bytes % 4 = 0 := Nat.mul_mod_left _ 4
      obtain ⟨last, behind⟩ := ih second (by omega) (by omega)
      refine ⟨by omega, ?_⟩
      intro region member
      rcases List.mem_cons.1 member with rfl | later
      · exact ⟨within.1, by have := within.2; omega⟩
      · have := behind region later
        exact ⟨by have := this.1; omega, this.2⟩

theorem physOf_kmallocInit (numPages : Nat) {kernelEnd : BitVec 32}
    (image : KERNEL_BOOT_ADDRESS.toNat ≤ kernelEnd.toNat) (room : physOf kernelEnd + 3 < 0x100000000) :
    physOf (kmallocInit numPages kernelEnd).freeAreaStart = (physOf kernelEnd + 3) / 4 * 4 ∧
      0x10000 ≤ physOf kernelEnd := by
  refine ⟨physOf_wordAlign room, ?_⟩
  have small := kernelEnd.isLt
  have boot : KERNEL_BOOT_ADDRESS.toNat = 0x80010000 := by decide
  rw [physOf_eq]
  omega

theorem kmallocGetReservedPages_eq (s : Kmalloc) :
    kmallocGetReservedPages s = (physOf s.freeAreaStart + 4095) / 4096 := by
  simp only [kmallocGetReservedPages, physOf]
  split <;> omega

end Buenos.Kernel
