/-
# Vm.PagepoolRuns -- the page pool from boot on

`vm_init` turns what `kmalloc` has left into pages, and from then on pages are taken and
given back in any order.  The pages in use are the ghost field `live`.

The pool keeps a bitmap and a counter, and it answers zero when there is no free page.  A page
is free if it is neither static nor live (`IsFree`), which is said without the bitmap; the
bitmap agrees with it in every state.  Page zero is never free, because the kernel image lies
behind it, and no free page meets static memory, because the static pages are counted after
the pool's own bitmap is in place: `pagepool_sound`.
-/
import Buenos.Kernel.Kmalloc
import Buenos.Theory.Run
import Buenos.Vm.Pagepool
import Mathlib.Order.Interval.Finset.Nat

namespace Buenos.Vm.Pool

open Buenos.Kernel Buenos.Lib Buenos.Theory

set_option autoImplicit false

/-- `vm_init`: the pool, and the region that its bitmap lies in. -/
def vmInit (numPages : Nat) (addressable : numPages ≤ 0x100000) : Prog Kmalloc (Region × Pagepool) := do
  let start ← kmalloc (bitmapSizeof numPages)
  let reserved ← Prog.gets kmallocGetReservedPages
  kmallocDisable
  pure ({ start := start, bytes := bitmapSizeof numPages },
    pagepoolInit numPages reserved addressable)

/-- From `kmalloc_init` to the end of `vm_init`, with the requests made in between. -/
def bootMemory (numPages : Nat) (addressable : numPages ≤ 0x100000) (amounts : List Int) :
    Prog Kmalloc (List Region × Pagepool) := do
  let regions ← kmallocs amounts
  let (bitmap, pool) ← vmInit numPages addressable
  pure (regions ++ [bitmap], pool)

/-- A machine: how much memory it has, where the kernel image ends, and what is asked of
`kmalloc` before `vm_init`. -/
structure Machine where
  numPages : Nat
  kernelEnd : BitVec 32
  amounts : List Int
  /-- The size of the memory is a 32-bit number. -/
  addressable : numPages < 0x100000
  /-- The linker puts the image at the boot address. -/
  image : KERNEL_BOOT_ADDRESS.toNat ≤ kernelEnd.toNat

/-- What is given out statically: the image up to a word boundary, the requests, and the
pool's bitmap. -/
def Machine.static (machine : Machine) : Nat :=
  (physOf machine.kernelEnd + 3) / 4 * 4 +
    staticSize (machine.amounts ++ [(bitmapSizeof machine.numPages : Int)])

structure State where
  pool : Pagepool
  live : Finset (BitVec 32)

inductive PoolAct where
  | get
  | free (addr : BitVec 32)

/-- A call that fails an assertion is no step. -/
def poolStep (s : State) : PoolAct → Option State
  | .get =>
      match pagepoolGetPhysPage s.pool with
      | .returned (addr, pool) =>
          some { pool := pool, live := if addr = 0 then s.live else insert addr s.live }
      | .stopped _ => none
  | .free addr =>
      match pagepoolFreePhysPage addr s.pool with
      | .returned (_, pool) => some { pool := pool, live := s.live.erase addr }
      | .stopped _ => none

/-- Only live pages are freed. -/
def OnlyLive (s : State) : PoolAct → Prop
  | .get => True
  | .free addr => addr ∈ s.live

/-- The pool as `vm_init` leaves it, with the regions that `kmalloc` gave out. -/
structure Booted (machine : Machine) (regions : List Region) (s : State) : Prop where
  ran : ∃ memory, bootMemory machine.numPages (Nat.le_of_lt machine.addressable) machine.amounts
    (kmallocInit machine.numPages machine.kernelEnd) = .returned ((regions, s.pool), memory)
  live : s.live = ∅

def poolSystem (machine : Machine) (regions : List Region) : System State PoolAct where
  initial := Booted machine regions
  step := poolStep

/-- The page at a physical address keeps clear of what lies between two others. -/
def ApartFrom (addr : BitVec 32) (low high : Nat) : Prop :=
  addr.toNat + PAGE_SIZE ≤ low ∨ high ≤ addr.toNat

/-- Page `i` begins below the end of the kernel image or of a region that `kmalloc` gave out. -/
def Static (machine : Machine) (regions : List Region) (i : Nat) : Prop :=
  i * PAGE_SIZE < physOf machine.kernelEnd ∨
    ∃ region ∈ regions, i * PAGE_SIZE < physOf region.start + region.bytes

/-- The physical address of page `i`. -/
def pageAddr (i : Nat) : BitVec 32 := BitVec.ofNat 32 (i * PAGE_SIZE)

/-- Page `i` of the memory is neither static nor in use. -/
def IsFree (machine : Machine) (regions : List Region) (live : Finset (BitVec 32)) (i : Nat) : Prop :=
  i < machine.numPages ∧ ¬ Static machine regions i ∧ pageAddr i ∉ live

/-- What the pool promises in a state. -/
structure PoolSound (machine : Machine) (regions : List Region) (s : State) : Prop where
  size : s.pool.numPages = machine.numPages
  counted : s.pool.numFreePages = (free s.pool.freePages s.pool.numPages : Int)
  /-- The bits are clear that stand for free pages. -/
  bits : ∀ i < machine.numPages,
    bitmapGet s.pool.freePages i = false ↔ IsFree machine regions s.live i
  /-- A page in use is one of the memory, and not static. -/
  inUse : ∀ addr ∈ s.live, ∃ i < machine.numPages, addr = pageAddr i ∧ ¬ Static machine regions i
  /-- A request returns; with zero exactly if no page is free, and else with a free page, which it
  marks. -/
  gets : ∃ addr pool, pagepoolGetPhysPage s.pool = .returned (addr, pool) ∧
    (addr = 0 ↔ ∀ i, ¬ IsFree machine regions s.live i) ∧
    (addr ≠ 0 → (∃ i, IsFree machine regions s.live i ∧ addr = pageAddr i ∧
        bitmapGet pool.freePages i = true) ∧
      addr.toNat % PAGE_SIZE = 0 ∧ addr.toNat + PAGE_SIZE ≤ machine.numPages * PAGE_SIZE ∧
        addr ∉ s.live ∧ ApartFrom addr 0 (physOf machine.kernelEnd) ∧
        ∀ region ∈ regions, ApartFrom addr (physOf region.start) (physOf region.start + region.bytes))
  /-- A live page can be freed, and then it is free. -/
  frees : ∀ addr ∈ s.live, ∃ pool i, pagepoolFreePhysPage addr s.pool = .returned ((), pool) ∧
    addr = pageAddr i ∧ bitmapGet pool.freePages i = false ∧
      pool.numFreePages = s.pool.numFreePages + 1

/-! ## The initial bitmap -/

theorem bitmapGet_reserve (n q : Nat) :
    bitmapGet ((List.range n).foldl (fun bitmap i => bitmapSet bitmap i true) fun _ => 0) q =
      decide (q < n) := by
  induction n with
  | zero => simp [bitmapGet]
  | succ n ih =>
      rw [List.range_succ, List.foldl_append, List.foldl_cons, List.foldl_nil,
        bitmapGet_bitmapSet, ih]
      by_cases here : q = n
      · simp [here]
      · have : q < n + 1 ↔ q < n := by omega
        simp [here, this]

theorem free_pagepoolInit {numPages reserved : Nat} (addressable : numPages ≤ 0x100000) :
    free (pagepoolInit numPages reserved addressable).freePages numPages = numPages - reserved := by
  have same : clearBits (pagepoolInit numPages reserved addressable).freePages numPages =
      Finset.Ico reserved numPages := by
    ext q
    rw [mem_clearBits, Finset.mem_Ico]
    change q < numPages ∧ bitmapGet ((List.range reserved).foldl _ _) q = false ↔ _
    rw [bitmapGet_reserve, decide_eq_false_iff_not]
    omega
  rw [free, same, Nat.card_Ico]

/-! ## The operations -/

/-- What holds of the pool in every run. -/
structure PoolInv (machine : Machine) (regions : List Region) (s : State) : Prop where
  size : s.pool.numPages = machine.numPages
  counted : s.pool.numFreePages = (free s.pool.freePages s.pool.numPages : Int)
  positive : 0 < s.pool.staticEnd
  static : ∀ i, i < s.pool.staticEnd → bitmapGet s.pool.freePages i = true
  isStatic : ∀ i, i < s.pool.staticEnd ↔ Static machine regions i
  taken : ∀ i, s.pool.staticEnd ≤ i → i < s.pool.numPages →
    bitmapGet s.pool.freePages i = true → pageAddr i ∈ s.live
  live : ∀ addr ∈ s.live, ∃ i, s.pool.staticEnd ≤ i ∧ i < s.pool.numPages ∧
    addr.toNat = i * PAGE_SIZE ∧ bitmapGet s.pool.freePages i = true

section Operations

variable {machine : Machine} {regions : List Region} {s : State}

/-- The pool after page `i` is taken. -/
def took (pool : Pagepool) (i : Nat) : Pagepool :=
  { pool with
    freePages := bitmapSet pool.freePages i true, numFreePages := pool.numFreePages - 1 }

/-- The pool after page `i` is given back. -/
def gave (pool : Pagepool) (i : Nat) : Pagepool :=
  { pool with
    freePages := bitmapSet pool.freePages i false, numFreePages := pool.numFreePages + 1 }

/-- A request, with the counter in step: zero, or the first free page. -/
theorem PoolInv.get (inv : PoolInv machine regions s) :
    (free s.pool.freePages s.pool.numPages = 0 ∧
        pagepoolGetPhysPage s.pool = .returned (0, s.pool)) ∨
      ∃ i, i < s.pool.numPages ∧ bitmapGet s.pool.freePages i = false ∧
        0 < free s.pool.freePages s.pool.numPages ∧
        pagepoolGetPhysPage s.pool =
          .returned (pageAddr i, took s.pool i) := by
  have counted := inv.counted
  simp only [pagepoolGetPhysPage, Prog.bind_gets_apply, Prog.ite_apply, id_eq]
  by_cases some : 0 < s.pool.numFreePages
  · rw [if_pos some]
    cases found : bitmapFindnset s.pool.freePages s.pool.numPages with
    | none =>
        have full := free_eq_zero (bitmapFindnset_none found)
        omega
    | some pair =>
        obtain ⟨i, freePages⟩ := pair
        obtain ⟨within, clear, -, rfl⟩ := bitmapFindnset_some found
        exact Or.inr ⟨i, within, clear, by omega, rfl⟩
  · rw [if_neg some]
    exact Or.inl ⟨by omega, rfl⟩

/-- Static memory ends where the pool's pages begin. -/
theorem PoolInv.staticEnd (inv : PoolInv machine regions s) :
    physOf machine.kernelEnd ≤ s.pool.staticEnd * PAGE_SIZE ∧ ∀ region ∈ regions,
      physOf region.start + region.bytes ≤ s.pool.staticEnd * PAGE_SIZE := by
  have above : ¬ Static machine regions s.pool.staticEnd :=
    mt (inv.isStatic _).2 (Nat.lt_irrefl _)
  unfold Static at above
  exact ⟨Nat.not_lt.1 fun below => above (.inl below), fun region member =>
    Nat.not_lt.1 fun below => above (.inr ⟨region, member, below⟩)⟩

theorem PoolInv.toNat_pageAddr (inv : PoolInv machine regions s) {i : Nat}
    (within : i < s.pool.numPages) : (pageAddr i).toNat = i * PAGE_SIZE := by
  have small := machine.addressable
  have size := inv.size
  rw [pageAddr, BitVec.toNat_ofNat, Nat.mod_eq_of_lt]
  unfold PAGE_SIZE
  omega

/-- A page that is given out, as a physical address. -/
theorem PoolInv.page (inv : PoolInv machine regions s) {i : Nat} (within : i < s.pool.numPages)
    (clear : bitmapGet s.pool.freePages i = false) :
    s.pool.staticEnd ≤ i ∧ (pageAddr i).toNat = i * PAGE_SIZE ∧ pageAddr i ≠ 0 ∧
      pageAddr i ∉ s.live := by
  have static : s.pool.staticEnd ≤ i := by
    by_contra below
    rw [inv.static i (Nat.not_le.1 below)] at clear
    cases clear
  have positive := inv.positive
  have value := inv.toNat_pageAddr within
  refine ⟨static, value, ?_, ?_⟩
  · intro zero
    have : i * PAGE_SIZE = 0 := by
      rw [← value, zero]
      rfl
    unfold PAGE_SIZE at this
    omega
  · intro member
    obtain ⟨j, -, -, place, set⟩ := inv.live _ member
    rw [value] at place
    have same : i = j := Nat.eq_of_mul_eq_mul_right (by decide) place
    rw [same, set] at clear
    cases clear

theorem PoolInv.free_live (inv : PoolInv machine regions s) {addr : BitVec 32}
    (member : addr ∈ s.live) :
    ∃ i, s.pool.staticEnd ≤ i ∧ i < s.pool.numPages ∧ addr.toNat = i * PAGE_SIZE ∧
      bitmapGet s.pool.freePages i = true ∧
      pagepoolFreePhysPage addr s.pool = .returned ((), gave s.pool i) := by
  obtain ⟨i, static, within, place, set⟩ := inv.live addr member
  have index : addr.toNat / PAGE_SIZE = i := by
    rw [place, Nat.mul_div_cancel _ (by decide)]
  refine ⟨i, static, within, place, set, ?_⟩
  simp only [pagepoolFreePhysPage, index, Prog.bind_assert_apply, static, set, decide_true, if_true]
  rfl

/-- The clear bits are those of the free pages. -/
theorem PoolInv.isFree_iff (inv : PoolInv machine regions s) {i : Nat} :
    IsFree machine regions s.live i ↔
      i < s.pool.numPages ∧ bitmapGet s.pool.freePages i = false := by
  rw [IsFree, ← inv.size]
  refine and_congr_right fun within => ⟨fun isFree => ?_, fun clear => ?_⟩
  · obtain ⟨above, unused⟩ := isFree
    have behind : s.pool.staticEnd ≤ i := Nat.not_lt.1 (mt (inv.isStatic i).1 above)
    by_contra set
    exact unused (inv.taken i behind within (Bool.not_eq_false _ ▸ set))
  · obtain ⟨static, -, -, fresh⟩ := inv.page within clear
    exact ⟨mt (inv.isStatic i).2 (Nat.not_lt.2 static), fresh⟩

theorem PoolInv.sound (inv : PoolInv machine regions s) : PoolSound machine regions s where
  size := inv.size
  counted := inv.counted
  bits := fun i within => by
    rw [inv.isFree_iff, inv.size]
    exact (and_iff_right within).symm
  inUse := fun addr member => by
    obtain ⟨i, static, within, place, -⟩ := inv.live addr member
    refine ⟨i, inv.size ▸ within, ?_, mt (inv.isStatic i).2 (Nat.not_lt.2 static)⟩
    exact BitVec.eq_of_toNat_eq (place.trans (inv.toNat_pageAddr within).symm)
  gets := by
    rcases inv.get with ⟨none, ran⟩ | ⟨i, within, clear, -, ran⟩
    · refine ⟨0, s.pool, ran, iff_of_true rfl fun i isFree => ?_, fun found => absurd rfl found⟩
      obtain ⟨within, clear⟩ := inv.isFree_iff.1 isFree
      rw [free, Finset.card_eq_zero] at none
      exact Finset.notMem_empty i (none ▸ mem_clearBits.2 ⟨within, clear⟩)
    · obtain ⟨static, value, nonzero, fresh⟩ := inv.page within clear
      have isFree := inv.isFree_iff.2 ⟨within, clear⟩
      have size := inv.size
      obtain ⟨image, behind⟩ := inv.staticEnd
      have low : s.pool.staticEnd * PAGE_SIZE ≤ i * PAGE_SIZE := Nat.mul_le_mul_right _ static
      refine ⟨_, _, ran, iff_of_false nonzero fun none => none i isFree, fun _ =>
        ⟨⟨i, isFree, rfl, bitmapGet_bitmapSet_self _ _ _⟩, ?_, ?_, fresh, ?_, ?_⟩⟩
      · rw [value, Nat.mul_mod_left]
      · rw [value, ← Nat.succ_mul, ← size]
        exact Nat.mul_le_mul_right _ within
      · right
        rw [value]
        exact image.trans low
      · intro region member
        right
        rw [value]
        exact (behind region member).trans low
  frees := by
    intro addr member
    obtain ⟨i, -, within, place, -, ran⟩ := inv.free_live member
    refine ⟨_, i, ran, ?_, bitmapGet_bitmapSet_self _ _ _, rfl⟩
    exact BitVec.eq_of_toNat_eq (place.trans (inv.toNat_pageAddr within).symm)

theorem free_took {pool : Pagepool} {i : Nat} (within : i < pool.numPages)
    (clear : bitmapGet pool.freePages i = false) :
    free pool.freePages pool.numPages = free (took pool i).freePages pool.numPages + 1 :=
  free_bitmapSet within clear

theorem free_gave {pool : Pagepool} {i : Nat} (within : i < pool.numPages)
    (set : bitmapGet pool.freePages i = true) :
    free (gave pool i).freePages pool.numPages = free pool.freePages pool.numPages + 1 := by
  have fresh : i ∉ clearBits pool.freePages pool.numPages := by
    intro member
    rw [(mem_clearBits.1 member).2] at set
    cases set
  change (clearBits (bitmapSet pool.freePages i false) pool.numPages).card = _
  rw [clearBits_bitmapSet_false within, Finset.card_insert_of_notMem fresh]
  rfl

/-- **Step.** -/
theorem poolInv_step {t : State} {a : PoolAct} (inv : PoolInv machine regions s)
    (allowed : OnlyLive s a) (taken : poolStep s a = some t) : PoolInv machine regions t := by
  cases a with
  | get =>
      simp only [poolStep] at taken
      rcases inv.get with ⟨-, ran⟩ | ⟨i, within, clear, -, ran⟩
      · rw [ran] at taken
        cases taken
        exact inv
      · obtain ⟨static, value, nonzero, -⟩ := inv.page within clear
        rw [ran] at taken
        simp only [nonzero, if_false, Option.some.injEq] at taken
        subst taken
        have counted := inv.counted
        have one := free_took within clear
        refine ⟨inv.size, ?_, inv.positive, ?_, inv.isStatic, ?_, ?_⟩
        · change s.pool.numFreePages - 1 = (free (took s.pool i).freePages s.pool.numPages : Int)
          omega
        · intro j below
          change bitmapGet (bitmapSet s.pool.freePages i true) j = true
          rw [bitmapGet_bitmapSet, inv.static j below, ite_self]
        · intro j above inside set
          change bitmapGet (bitmapSet s.pool.freePages i true) j = true at set
          by_cases same : j = i
          · rw [same]
            exact Finset.mem_insert_self _ _
          · rw [bitmapGet_bitmapSet, if_neg same] at set
            exact Finset.mem_insert_of_mem (inv.taken j above inside set)
        · intro addr member
          rcases Finset.mem_insert.1 member with rfl | old
          · refine ⟨i, static, within, value, ?_⟩
            exact bitmapGet_bitmapSet_self _ _ _
          · obtain ⟨j, low, high, place, set⟩ := inv.live addr old
            refine ⟨j, low, high, place, ?_⟩
            change bitmapGet (bitmapSet s.pool.freePages i true) j = true
            rw [bitmapGet_bitmapSet, set, ite_self]
  | free addr =>
      obtain ⟨i, static, within, place, set, ran⟩ := inv.free_live allowed
      simp only [poolStep, ran, Option.some.injEq] at taken
      subst taken
      have counted := inv.counted
      have one := free_gave within set
      refine ⟨inv.size, ?_, inv.positive, ?_, inv.isStatic, ?_, ?_⟩
      · change s.pool.numFreePages + 1 = (free (gave s.pool i).freePages s.pool.numPages : Int)
        omega
      · intro j below
        have below : j < s.pool.staticEnd := below
        change bitmapGet (bitmapSet s.pool.freePages i false) j = true
        rw [bitmapGet_bitmapSet, if_neg (by omega)]
        exact inv.static j below
      · intro j above inside set
        change bitmapGet (bitmapSet s.pool.freePages i false) j = true at set
        have apart : j ≠ i := by
          rintro rfl
          rw [bitmapGet_bitmapSet_self] at set
          cases set
        rw [bitmapGet_bitmapSet, if_neg apart] at set
        refine Finset.mem_erase.2 ⟨fun same => apart ?_, inv.taken j above inside set⟩
        rw [← same, inv.toNat_pageAddr inside] at place
        exact Nat.eq_of_mul_eq_mul_right (by decide) place
      · intro other member
        obtain ⟨apart, old⟩ := Finset.mem_erase.1 member
        obtain ⟨j, low, high, place', set'⟩ := inv.live other old
        have differs : j ≠ i := by
          rintro rfl
          exact apart (BitVec.eq_of_toNat_eq (place'.trans place.symm))
        refine ⟨j, low, high, place', ?_⟩
        change bitmapGet (bitmapSet s.pool.freePages i false) j = true
        rw [bitmapGet_bitmapSet, if_neg differs]
        exact set'

end Operations

/-! ## From boot on -/

section Boot

variable {machine : Machine} {regions : List Region} {s : State}

theorem poolInv_boot (inside : machine.static ≤ machine.numPages * PAGE_SIZE)
    (boot : Booted machine regions s) : PoolInv machine regions s := by
  obtain ⟨pool, live⟩ := s
  obtain ⟨memory, ran⟩ := boot.ran
  obtain rfl := boot.live
  have small := machine.addressable
  have words := staticSize_mod machine.amounts
  have total : machine.static = (physOf machine.kernelEnd + 3) / 4 * 4 +
      (staticSize machine.amounts + padded (bitmapSizeof machine.numPages : Int)) := by
    simp [Machine.static, staticSize]
  unfold PAGE_SIZE at inside
  obtain ⟨start, image⟩ := physOf_kmallocInit machine.numPages machine.image (by omega)
  obtain ⟨others, k₁, first, ran⟩ := Prog.bind_returned.1 ran
  obtain ⟨pair, k₂, second, ran⟩ := Prog.bind_returned.1 ran
  obtain ⟨bitmap, k₃, third, second⟩ := Prog.bind_returned.1 second
  obtain ⟨next, before⟩ := kmallocs_regions first (by omega) (by omega)
  obtain ⟨last, behind⟩ := kmalloc_region third (by omega) (by omega)
  have reserved := kmallocGetReservedPages_eq k₃
  cases second
  cases ran
  have covered : physOf k₃.freeAreaStart ≤ kmallocGetReservedPages k₃ * 4096 := by omega
  -- the pool's bitmap is the last thing given out, so static memory ends where it ends
  have ends : physOf k₃.freeAreaStart = physOf bitmap + bitmapSizeof machine.numPages := by
    have low := behind.1
    have high := behind.2
    have whole : padded (bitmapSizeof machine.numPages : Int) = bitmapSizeof machine.numPages := by
      unfold padded bitmapSizeof
      omega
    change physOf k₁.freeAreaStart ≤ physOf bitmap at low
    change physOf bitmap + bitmapSizeof machine.numPages ≤ physOf k₃.freeAreaStart at high
    omega
  refine ⟨rfl, ?_, ?_, ?_, fun i => ?_, fun i above _ set => ?_,
    fun _ member => absurd member (Finset.notMem_empty _)⟩
  · change (machine.numPages : Int) - kmallocGetReservedPages k₃ =
      (free (pagepoolInit machine.numPages _ _).freePages machine.numPages : Int)
    rw [free_pagepoolInit]
    omega
  · change 0 < kmallocGetReservedPages k₃
    omega
  · intro i below
    exact (bitmapGet_reserve _ i).trans (decide_eq_true below)
  · change i < kmallocGetReservedPages k₃ ↔ Static machine _ i
    unfold Static PAGE_SIZE
    constructor
    · intro below
      exact .inr ⟨_, List.mem_append_right _ List.mem_cons_self, by
        change i * 4096 < physOf bitmap + bitmapSizeof machine.numPages
        rw [← ends]
        omega⟩
    · rintro (below | ⟨region, member, below⟩)
      · omega
      · rcases List.mem_append.1 member with early | late
        · have := (before region early).2
          omega
        · rw [List.mem_singleton.1 late] at below
          change i * 4096 < physOf bitmap + bitmapSizeof machine.numPages at below
          rw [← ends] at below
          omega
  · change kmallocGetReservedPages k₃ ≤ i at above
    rw [show bitmapGet _ i = _ from bitmapGet_reserve _ i, decide_eq_true_eq] at set
    omega

/-- The end of a memory of 2GB or more wraps to an address below the free area, and `kmalloc` gives
out nothing. -/
theorem booted_below (low : machine.static < 0x80000000) (boot : Booted machine regions s) :
    machine.numPages < 0x80000 := by
  obtain ⟨memory, ran⟩ := boot.ran
  have addressable := machine.addressable
  have total : machine.static = (physOf machine.kernelEnd + 3) / 4 * 4 +
      (staticSize machine.amounts + padded (bitmapSizeof machine.numPages : Int)) := by
    simp [Machine.static, staticSize]
  have words : bitmapSizeof machine.numPages ≤ padded (bitmapSizeof machine.numPages : Int) := by
    unfold padded
    omega
  obtain ⟨start, -⟩ := physOf_kmallocInit machine.numPages machine.image (by omega)
  obtain ⟨others, k₁, first, ran⟩ := Prog.bind_returned.1 ran
  obtain ⟨pair, k₂, second, ran⟩ := Prog.bind_returned.1 ran
  obtain ⟨bitmap, k₃, third, second⟩ := Prog.bind_returned.1 second
  obtain ⟨next, -⟩ := kmallocs_regions first (by omega) (by omega)
  obtain ⟨fits, -⟩ := kmalloc_memoryEnd third
  have ends : k₁.memoryEnd = 0x80000000#32 + BitVec.ofNat 32 machine.numPages * 4096#32 :=
    kmallocs_memoryEnd first
  -- the region of the bitmap does not wrap, so it ends in the unmapped segment
  have place : physOf (k₁.freeAreaStart + BitVec.ofInt 32 (bitmapSizeof machine.numPages)) < 0x80000000 := by
    rw [physOf_add (Int.natCast_nonneg _) (by rw [Int.toNat_natCast]; omega), Int.toNat_natCast]
    omega
  have small := (k₁.freeAreaStart + BitVec.ofInt 32 (bitmapSizeof machine.numPages)).isLt
  rw [physOf_eq] at place
  have size : k₁.memoryEnd.toNat = (0x80000000 + machine.numPages * 4096) % 0x100000000 := by
    rw [ends, BitVec.toNat_add, BitVec.toNat_mul, BitVec.toNat_ofNat]
    change (0x80000000 + machine.numPages % 0x100000000 * 4096 % 0x100000000) % 0x100000000 = _
    omega
  omega

/-- **The page pool.**  On every machine, after every use of `kmalloc` that leaves the free
area in memory, and after every sequence of requests in which only live pages are given
back, the counter is the number of clear bits, no assertion fails, and a request is answered
with a page that is new and apart from the kernel and from static memory, or with zero
exactly if no page is free. -/
theorem pagepool_sound (inside : machine.static ≤ machine.numPages * PAGE_SIZE)
    (reached : (poolSystem machine regions).ReachableWhen OnlyLive s) :
    PoolSound machine regions s :=
  (System.ReachableWhen.invariant (I := PoolInv machine regions)
    (fun _ boot => poolInv_boot inside boot)
    (fun _ _ _ inv allowed taken => poolInv_step inv allowed taken) reached).sound

end Boot

/-! ## A small machine -/

/-- Forty pages of memory, an image of some three pages behind the boot address, and one
request of a hundred bytes. -/
def smallMachine : Machine where
  numPages := 40
  kernelEnd := 0x80012345
  amounts := [100]
  addressable := by decide
  image := by decide

/-- The request and the pool's bitmap. -/
def smallRegions : List Region :=
  [{ start := 0x80012348, bytes := 100 }, { start := 0x800123ac, bytes := 8 }]

/-- The pool of the small machine as `vm_init` leaves it. -/
def smallBoot : State where
  pool := pagepoolInit smallMachine.numPages 19 (Nat.le_of_lt smallMachine.addressable)
  live := ∅

theorem smallMachine_booted : Booted smallMachine smallRegions smallBoot :=
  ⟨⟨_, rfl⟩, rfl⟩

/-- Two pages are taken, the first is given back, and two more are taken. -/
def smallActs : List PoolAct :=
  [.get, .get, .free (pageAddr 19), .get, .get]

theorem smallMachine_ran :
    ∃ s, (poolSystem smallMachine smallRegions).exec smallBoot smallActs = some s ∧
      s.live = {pageAddr 19, pageAddr 20, pageAddr 21} ∧ s.pool.numFreePages = 18 :=
  ⟨_, rfl, by decide, rfl⟩

/-- The page that was given back is given out again, and three pages are in use. -/
theorem pagepool_sound_small :
    ∃ s, PoolSound smallMachine smallRegions s ∧
      s.live = {pageAddr 19, pageAddr 20, pageAddr 21} ∧ s.pool.numFreePages = 18 := by
  obtain ⟨s, ran, live, counted⟩ := smallMachine_ran
  have inside : smallMachine.static ≤ smallMachine.numPages * PAGE_SIZE := by decide
  have twice : pageAddr 19 ∈ ({pageAddr 20, pageAddr 19} : Finset (BitVec 32)) := by decide
  have allowed : (poolSystem smallMachine smallRegions).Guarded OnlyLive smallBoot smallActs :=
    ⟨trivial, trivial, twice, trivial, trivial, trivial⟩
  exact ⟨s, pagepool_sound inside (.exec (.start smallMachine_booted) allowed ran), live, counted⟩

end Buenos.Vm.Pool
