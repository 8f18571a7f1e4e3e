/-
# Vm.Pagepool -- physical pages

The page pool of vm/pagepool.c: a bitmap with a set bit for each page in use, the number of
free pages beside it, and the end of the pages that `kmalloc` gave out for good.  A page is
named by its physical address, and zero is the answer when no page is free.

A page table lies in a page of its own.  The kernel reaches it through the unmapped
segment, which covers the first 512MB of physical memory; a table in a page above that is
not where its address points, and the program stops there.

The spinlock and the interrupt mask around each operation are left out: they take nothing
from the pool.
-/
import Buenos.Lib.Bitmap
import Buenos.Theory.Prog
import Buenos.Vm.Pagetable

namespace Buenos.Vm

open Buenos.Lib Buenos.Theory

set_option autoImplicit false

def PAGE_SIZE : Nat := 4096

/-- The size of the unmapped segment. -/
def KSEG0_SIZE : Nat := 0x20000000

/-- Physical addresses have 32 bits, so there are at most 2^20 pages. -/
structure Pagepool where
  freePages : Bitmap
  numPages : Nat
  numFreePages : Int
  staticEnd : Nat
  addressable : numPages ≤ 0x100000

/-- The pool of a machine with `numPages` pages, the first `reserved` of them static. -/
def pagepoolInit (numPages reserved : Nat) (addressable : numPages ≤ 0x100000) : Pagepool where
  freePages := (List.range reserved).foldl (fun bitmap i => bitmapSet bitmap i true) fun _ => 0
  numPages := numPages
  numFreePages := numPages - reserved
  staticEnd := reserved
  addressable := addressable

/-- The counter was positive before it is decremented, so of the assertion only the part
about the bitmap can fail. -/
def pagepoolGetPhysPage : Prog Pagepool (BitVec 32) := do
  let pool ← Prog.gets id
  if 0 < pool.numFreePages then
    match bitmapFindnset pool.freePages pool.numPages with
    | some (i, freePages) => do
        Prog.modify fun pool =>
          { pool with freePages := freePages, numFreePages := pool.numFreePages - 1 }
        pure (BitVec.ofNat 32 (i * PAGE_SIZE))
    | none => Prog.stop .assertion
  else pure 0

def pagepoolFreePhysPage (physAddr : BitVec 32) : Prog Pagepool Unit := do
  let i := physAddr.toNat / PAGE_SIZE
  Prog.assert (fun pool => pool.staticEnd ≤ i) .assertion
  Prog.assert (fun pool => bitmapGet pool.freePages i) .assertion
  Prog.modify fun pool =>
    { pool with
      freePages := bitmapSet pool.freePages i false, numFreePages := pool.numFreePages + 1 }

/-! ## Page tables in pages -/

def addrPhysToKernel (addr : BitVec 32) : BitVec 32 := addr ||| 0x80000000#32

def addrKernelToPhys (addr : BitVec 32) : BitVec 32 := addr &&& 0x7fffffff#32

/-- A `pagetable_t *` that is not NULL, with what it points to. -/
structure PagetableRef where
  address : BitVec 32
  table : Pagetable

namespace Pagepool

/-- `vm_create_pagetable`: a page from the pool, and in it the table that
`Vm.vmCreatePagetable` describes. -/
def vmCreatePagetable (asid : BitVec 32) (page : Nat → TlbEntry) :
    Prog Pagepool (Option PagetableRef) := do
  let addr ← pagepoolGetPhysPage
  if addr = 0 then pure none
  else if addr.toNat < KSEG0_SIZE then
    pure (some { address := addrPhysToKernel addr, table := Vm.vmCreatePagetable asid page })
  else Prog.stop .outOfBounds

/-- `vm_destroy_pagetable` frees the page of the table and looks at nothing in it. -/
def vmDestroyPagetable (pagetable : BitVec 32) : Prog Pagepool Unit :=
  pagepoolFreePhysPage (addrKernelToPhys pagetable)

/-- The free pages. -/
def free (pool : Pagepool) : Finset Nat := clearBits pool.freePages pool.numPages

end Pagepool

/-! ## What the operations take and give -/

/-- **A page from the pool** was free, and it is the only one that is no longer free. -/
theorem pagepoolGetPhysPage_returned {pool pool' : Pagepool} {addr : BitVec 32}
    (ran : pagepoolGetPhysPage pool = .returned (addr, pool')) (found : addr ≠ 0) :
    ∃ i ∈ pool.free, addr.toNat = i * PAGE_SIZE ∧ pool'.free = pool.free.erase i ∧
      pool'.numPages = pool.numPages := by
  simp only [pagepoolGetPhysPage, Prog.bind_gets_apply, Prog.ite_apply, id_eq] at ran
  split at ran
  · cases taken : bitmapFindnset pool.freePages pool.numPages with
    | none => simp [taken] at ran
    | some pair =>
        obtain ⟨i, freePages⟩ := pair
        obtain ⟨within, clear, -, rfl⟩ := bitmapFindnset_some taken
        have small := pool.addressable
        simp only [taken, Prog.bind_modify_apply, Prog.pure_apply, Outcome.returned.injEq,
          Prod.mk.injEq] at ran
        obtain ⟨rfl, rfl⟩ := ran
        refine ⟨i, mem_clearBits.2 ⟨within, clear⟩, ?_, clearBits_bitmapSet, rfl⟩
        rw [BitVec.toNat_ofNat, Nat.mod_eq_of_lt]
        unfold PAGE_SIZE
        omega
  · cases ran
    exact absurd rfl found

theorem pagepoolFreePhysPage_returned {pool pool' : Pagepool} {addr : BitVec 32}
    (ran : pagepoolFreePhysPage addr pool = .returned ((), pool'))
    (within : addr.toNat / PAGE_SIZE < pool.numPages) :
    pool'.free = insert (addr.toNat / PAGE_SIZE) pool.free := by
  simp only [pagepoolFreePhysPage, Prog.bind_assert_apply] at ran
  split at ran
  · split at ran
    · cases ran
      exact clearBits_bitmapSet_false within
    · cases ran
  · cases ran

/-- Below the top bit an address comes back from the unmapped segment. -/
theorem addrKernelToPhys_low {addr : BitVec 32} (low : addr.toNat < 0x80000000) :
    addrKernelToPhys (addrPhysToKernel addr) = addr := by
  apply BitVec.eq_of_toNat_eq
  rw [addrKernelToPhys, addrPhysToKernel, BitVec.toNat_and, BitVec.toNat_or]
  change (addr.toNat ||| 2 ^ 31) &&& (2 ^ 31 - 1) = addr.toNat
  rw [Nat.and_two_pow_sub_one_eq_mod, Nat.or_mod_two_pow, Nat.mod_self, Nat.or_zero,
    Nat.mod_eq_of_lt low]

/-- The first 512MB are below the top bit. -/
theorem addrKernelToPhys_addrPhysToKernel {addr : BitVec 32} (low : addr.toNat < KSEG0_SIZE) :
    addrKernelToPhys (addrPhysToKernel addr) = addr :=
  addrKernelToPhys_low (low.trans (by decide))

namespace Pagepool

/-- The page of a new page table, and the address that gives it back. -/
theorem vmCreatePagetable_returned {pool pool' : Pagepool} {asid : BitVec 32}
    {page : Nat → TlbEntry} {ref : PagetableRef}
    (ran : vmCreatePagetable asid page pool = .returned (some ref, pool')) :
    ∃ i ∈ pool.free, (addrKernelToPhys ref.address).toNat / PAGE_SIZE = i ∧
      pool'.free = pool.free.erase i ∧ pool'.numPages = pool.numPages := by
  obtain ⟨addr, between, got, ran⟩ := Prog.bind_returned.1 ran
  simp only [Prog.ite_apply] at ran
  split at ran
  · cases ran
  · rename_i found
    obtain ⟨i, member, place, erased, size⟩ := pagepoolGetPhysPage_returned got found
    split at ran
    · rename_i low
      cases ran
      refine ⟨i, member, ?_, erased, size⟩
      rw [addrKernelToPhys_addrPhysToKernel low, place, Nat.mul_div_cancel _ (by decide)]
    · cases ran

end Pagepool

end Buenos.Vm
