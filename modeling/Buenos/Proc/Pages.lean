/-
# Proc.Pages -- the physical pages of a process

A process takes pages for its page table, its stack and its two segments, all of them in
`process_start`.  The machine here is what that function, `process_spawn`,
`process_finish` and `process_join` work on: the process table, the VFS, the page pool and
of each thread its page table and process id.  What the pages hold is left out, except that
a kernel access to user memory needs the page in the page table.

`process_finish` destroys the page table, and with it only the page the table lies in, so
the other pages stay taken: `processLife_same_iff`.
-/
import Buenos.Proc.Elf
import Buenos.Proc.Process
import Buenos.Theory.Reserve

namespace Buenos.Proc.Pages

open Buenos.Lib Buenos.Fs Buenos.Theory Buenos.Vm

set_option autoImplicit false

def USERLAND_STACK_TOP : BitVec 32 := 0x7fffeffc
def PAGE_SIZE_MASK : BitVec 32 := 0xfffff000

/-- Addresses from here on are not translated. -/
def USERLAND_END : Nat := 0x80000000

structure ThreadEntry where
  pagetable : Option PagetableRef
  processId : Int

structure Machine (σ : Type) where
  table : ProcessTable
  vfs : Vfs σ
  pool : Pagepool
  threads : Nat → ThreadEntry

variable {σ : Type}

def Machine.setThread (m : Machine σ) (tid : Nat) (thread : ThreadEntry) : Machine σ :=
  { m with threads := Function.update m.threads tid thread }

def onTable {α : Type} (p : Prog ProcessTable α) : Prog (Machine σ) α :=
  Prog.zoom (fun m => m.table) (fun table m => { m with table := table }) p

def onVfs {α : Type} (p : Prog (Vfs σ) α) : Prog (Machine σ) α :=
  Prog.zoom (fun m => m.vfs) (fun vfs m => { m with vfs := vfs }) p

def onPool {α : Type} (p : Prog Pagepool α) : Prog (Machine σ) α :=
  Prog.zoom (fun m => m.pool) (fun pool m => { m with pool := pool }) p

/-- Change the page table of a thread by a function that may panic. -/
def onPagetable (tid : Nat) (f : Pagetable → Option Pagetable) : Prog (Machine σ) Unit := fun m =>
  match (m.threads tid).pagetable with
  | none => .stopped .outOfBounds
  | some ref =>
      match f ref.table with
      | some table =>
          .returned ((), m.setThread tid
            { m.threads tid with pagetable := some { ref with table := table } })
      | none => .stopped .assertion

/-! ## User memory -/

/-- The numbers of the virtual pages that `length` bytes from `vaddr` on lie in. -/
def pagesTouched (vaddr : BitVec 32) (length : Nat) : List Nat :=
  if length = 0 then []
  else
    List.range' (vaddr.toNat / PAGE_SIZE)
      ((vaddr.toNat + length - 1) / PAGE_SIZE + 1 - vaddr.toNat / PAGE_SIZE)

/-- A kernel access to user memory.  Each page is brought into the TLB by the exception
handler, which panics without an entry for it; addresses that are not translated lead into
the kernel's own memory. -/
def touch (tid : Nat) (vaddr : BitVec 32) (length : Nat) : Prog (Machine σ) Unit := do
  Prog.assert (fun _ => length = 0 ∨ vaddr.toNat + length ≤ USERLAND_END) .outOfBounds
  Prog.assert (fun m => match (m.threads tid).pagetable with
    | none => length = 0
    | some ref => (pagesTouched vaddr length).all fun page =>
        (tlbStoreException ref.table (BitVec.ofNat 32 (page * PAGE_SIZE))).isSome) .assertion

/-! ## process_start -/

/-- The values of `i` in a loop up to `(int)pages`. -/
def pageIndices (pages : BitVec 32) : List Nat := List.range pages.toInt.toNat

/-- The loops that allocate and map pages. -/
def mapPages (tid : Nat) (vaddr : Nat → BitVec 32) : List Nat → Prog (Machine σ) Unit
  | [] => pure ()
  | i :: rest => do
      let physPage ← onPool pagepoolGetPhysPage
      Prog.assert (fun _ => physPage ≠ 0) .assertion
      onPagetable tid fun table => vmMap table physPage (vaddr i) true
      mapPages tid vaddr rest

/-- The loop that makes the read-only pages read-only. -/
def protectPages (tid : Nat) (vaddr : BitVec 32) : List Nat → Prog (Machine σ) Unit
  | [] => pure ()
  | i :: rest => do
      onPagetable tid fun table =>
        vmSetDirty table (vaddr + BitVec.ofNat 32 (i * PAGE_SIZE)) false
      protectPages tid vaddr rest

/-- The context that is handed to `thread_goto_userland`. -/
structure UserContext where
  sp : BitVec 32
  pc : BitVec 32

section Start

variable (ops : FsOps σ) (stackSize rows : Nat)

def copySegment (tid : Nat) (file : Int) (location size vaddr : BitVec 32) :
    Prog (Machine σ) Unit :=
  if 0 < size.toNat then do
    Prog.assert (fun _ => PAGE_SIZE ≤ vaddr.toNat) .assertion
    let sought ← onVfs (vfsSeek file location.toInt)
    Prog.assert (fun _ => sought = VFS_OK) .assertion
    let ret ← onVfs (vfsRead ops file true size.toInt)
    touch tid vaddr ret.2.length
    Prog.assert (fun _ => ret.1 = size.toInt) .assertion
  else pure ()

/-- The rest of `process_start`, once the headers are read.  `stackSize` is
`CONFIG_USERLAND_STACK_SIZE`, and `rows` the number of rows of the TLB. -/
def loadImage (tid : Nat) (file : Int) (elf : ElfInfo) : Prog (Machine σ) UserContext := do
  Prog.assert (fun _ => PAGE_SIZE ≤ elf.entryPoint.toNat) .assertion
  Prog.assert (fun _ =>
    (elf.roPages + elf.rwPages + BitVec.ofNat 32 stackSize).toNat ≤ rows) .assertion
  mapPages tid (fun i => (USERLAND_STACK_TOP &&& PAGE_SIZE_MASK) - BitVec.ofNat 32 (i * PAGE_SIZE))
    (List.range stackSize)
  mapPages tid (fun i => elf.roVaddr + BitVec.ofNat 32 (i * PAGE_SIZE)) (pageIndices elf.roPages)
  mapPages tid (fun i => elf.rwVaddr + BitVec.ofNat 32 (i * PAGE_SIZE)) (pageIndices elf.rwPages)
  touch tid elf.roVaddr (elf.roPages * BitVec.ofNat 32 PAGE_SIZE).toInt.toNat
  touch tid elf.rwVaddr (elf.rwPages * BitVec.ofNat 32 PAGE_SIZE).toInt.toNat
  touch tid ((USERLAND_STACK_TOP &&& PAGE_SIZE_MASK) -
    BitVec.ofNat 32 ((stackSize - 1) * PAGE_SIZE)) (stackSize * PAGE_SIZE)
  copySegment ops tid file elf.roLocation elf.roSize elf.roVaddr
  copySegment ops tid file elf.rwLocation elf.rwSize elf.rwVaddr
  protectPages tid elf.roVaddr (pageIndices elf.roPages)
  pure { sp := USERLAND_STACK_TOP, pc := elf.entryPoint }

/-- `page` is what the page of the page table held before. -/
def processStart (tid : Nat) (pid : Int) (page : Nat → TlbEntry) : Prog (Machine σ) UserContext := do
  Prog.modify fun m => m.setThread tid { m.threads tid with processId := pid }
  let executable ← Prog.gets fun m => (m.table pid).executable
  Prog.assert (fun m => (m.threads tid).pagetable.isNone) .assertion
  let pagetable ← onPool (Pagepool.vmCreatePagetable (BitVec.ofNat 32 tid) page)
  Prog.assert (fun _ => pagetable.isSome) .assertion
  Prog.modify fun m => m.setThread tid { m.threads tid with pagetable := pagetable }
  let file ← onVfs (vfsOpen ops executable)
  Prog.assert (fun _ => 0 ≤ file) .assertion
  let elf ← onVfs (elfParseHeader ops file)
  match elf with
  | none => Prog.stop .assertion
  | some elf => loadImage ops stackSize rows tid file elf

end Start

/-! ## The life of a process -/

/-- `thread_create` gives the new process thread `tid`. -/
def processSpawn (cur : Int) (tid : Nat) (executable : Name) : Prog (Machine σ) Int := do
  let pid ← onTable (Proc.processSpawn cur executable)
  if pid = PROCESS_PTABLE_FULL then pure PROCESS_PTABLE_FULL
  else do
    Prog.modify fun m => m.setThread tid { pagetable := none, processId := kernelPid }
    pure pid

/-- NULL is address zero. -/
def pagetableAddress (pagetable : Option PagetableRef) : BitVec 32 :=
  match pagetable with
  | none => 0
  | some ref => ref.address

def processFinish (tid : Nat) (retval : Int) : Prog (Machine σ) Unit := do
  let thread ← Prog.gets fun m => m.threads tid
  onTable (Prog.modify fun table => Proc.processFinish table thread.processId retval)
  onPool (Pagepool.vmDestroyPagetable (pagetableAddress thread.pagetable))
  Prog.modify fun m => m.setThread tid { m.threads tid with pagetable := none }

def processJoin (cur pid : Int) : Prog (Machine σ) Int := onTable (Proc.processJoin cur pid)

/-- A process from its spawn to the join of its parent `cur`.  A spawn that finds the
process table full starts no life. -/
def processLife (ops : FsOps σ) (stackSize rows : Nat) (cur : Int) (tid : Nat) (executable : Name)
    (page : Nat → TlbEntry) (retval : Int) : Prog (Machine σ) Int := do
  let pid ← processSpawn cur tid executable
  Prog.assert (fun _ => pid ≠ PROCESS_PTABLE_FULL) .assertion
  let _ ← processStart ops stackSize rows tid pid page
  processFinish tid retval
  processJoin cur pid

/-- What `elf_parse_header` reads of an executable. -/
def imageOf (ops : FsOps σ) (vfs : Vfs σ) (executable : Name) : Option ElfInfo :=
  match vfsOpen ops executable vfs with
  | .returned (file, vfs) =>
      match elfParseHeader ops file vfs with
      | .returned (elf, _) => elf
      | .stopped _ => none
  | .stopped _ => none

/-- The pages of a process besides its page table. -/
def imagePages (stackSize : Nat) (elf : ElfInfo) : Nat :=
  stackSize + elf.roPages.toNat + elf.rwPages.toNat

/-! ## What each part keeps -/

/-- The program takes `n` pages for good, and the thread's page table stays where it is. -/
abbrev Takes {α : Type} (tid n : Nat) (p : Prog (Machine σ) α) : Prop :=
  p.Reserves (fun m => m.pool.free)
    (fun m => (pagetableAddress (m.threads tid).pagetable, m.pool.numPages)) n

section Takes

variable {tid : Nat}

theorem onVfs_takes {α : Type} (p : Prog (Vfs σ) α) : Takes tid 0 (onVfs p) :=
  .of_same fun _ => .zoom fun _ _ _ => ⟨rfl, rfl⟩

theorem onPagetable_takes (f : Pagetable → Option Pagetable) :
    Takes tid 0 (onPagetable tid f : Prog (Machine σ) Unit) := by
  apply Prog.Reserves.of_same
  intro m _ m' ran
  unfold onPagetable at ran
  split at ran
  · cases ran
  · rename_i ref found
    split at ran
    · cases ran
      exact ⟨rfl, by simp [Machine.setThread, pagetableAddress, found]⟩
    · cases ran

theorem touch_takes (vaddr : BitVec 32) (length : Nat) :
    Takes tid 0 (touch tid vaddr length : Prog (Machine σ) Unit) :=
  .skip (.assert _ _) fun _ => .assert _ _

/-- One page for each round of the loop. -/
theorem mapPages_takes (vaddr : Nat → BitVec 32) (indices : List Nat) :
    Takes tid indices.length (mapPages tid vaddr indices : Prog (Machine σ) Unit) := by
  induction indices with
  | nil => exact .pure ()
  | cons i rest ih =>
      intro m _ m' ran
      obtain ⟨physPage, m₁, first, ran⟩ := Prog.bind_returned.1 ran
      obtain ⟨pool, got, rfl⟩ := Prog.zoom_returned.1 first
      rw [Prog.bind_assert_apply] at ran
      split at ran
      · rename_i found
        obtain ⟨page, member, -, erased, size⟩ :=
          pagepoolGetPhysPage_returned got (by simpa using found)
        have one : Reserved 1 m.pool.free pool.free := by
          rw [erased]
          exact .take member
        obtain ⟨kept, same⟩ := ((onPagetable_takes _).skip fun _ => ih) _ _ _ ran
        refine ⟨?_, same.trans ?_⟩
        · rw [List.length_cons, Nat.add_comm]
          exact one.trans kept
        · exact congrArg _ size
      · cases ran

theorem protectPages_takes (vaddr : BitVec 32) (indices : List Nat) :
    Takes tid 0 (protectPages tid vaddr indices : Prog (Machine σ) Unit) := by
  induction indices with
  | nil => exact .pure ()
  | cons i rest ih => exact .skip (onPagetable_takes _) fun _ => ih

variable (ops : FsOps σ) (stackSize rows : Nat)

theorem copySegment_takes (file : Int) (location size vaddr : BitVec 32) :
    Takes tid 0 (copySegment ops tid file location size vaddr) := by
  unfold copySegment
  refine .ite ?_ (.pure ())
  refine .skip (.assert _ _) fun _ => .skip (onVfs_takes _) fun _ => ?_
  refine .skip (.assert _ _) fun _ => .skip (onVfs_takes _) fun _ => ?_
  exact .skip (touch_takes _ _) fun _ => .assert _ _

theorem length_pageIndices {pages : BitVec 32} (small : pages.toNat < 0x100000) :
    (pageIndices pages).length = pages.toNat := by
  have int : pages.toInt = pages.toNat := BitVec.toInt_eq_toNat_of_lt (by omega)
  rw [pageIndices, List.length_range, int, Int.toNat_natCast]

/-- Loading takes the pages of the stack and of the segments. -/
theorem loadImage_takes (file : Int) {elf : ElfInfo} (fits : elf.Fits) :
    Takes tid (imagePages stackSize elf) (loadImage ops stackSize rows tid file elf) := by
  unfold loadImage
  refine .skip (.assert _ _) fun _ => .skip (.assert _ _) fun _ => ?_
  have pages : imagePages stackSize elf =
      (List.range stackSize).length +
        ((pageIndices elf.roPages).length + (pageIndices elf.rwPages).length) := by
    rw [length_pageIndices fits.1, length_pageIndices fits.2, List.length_range, imagePages,
      Nat.add_assoc]
  rw [pages]
  refine .bind (mapPages_takes _ _) fun _ => .bind (mapPages_takes _ _) fun _ => ?_
  refine .close (mapPages_takes _ _) fun _ => .skip (touch_takes _ _) fun _ => ?_
  refine .skip (touch_takes _ _) fun _ => .skip (touch_takes _ _) fun _ => ?_
  refine .skip (copySegment_takes ops _ _ _ _) fun _ => ?_
  refine .skip (copySegment_takes ops _ _ _ _) fun _ => ?_
  exact .skip (protectPages_takes _ _) fun _ => .pure _

end Takes

/-! ## The life as a whole -/

section Life

variable (ops : FsOps σ) (stackSize rows : Nat) {m m' : Machine σ} {tid : Nat}

/-- A start takes a page for the page table, one that the table's address leads back to, and
the pages of the image. -/
theorem processStart_returned {pid : Int} {page : Nat → TlbEntry} {context : UserContext}
    (ran : processStart ops stackSize rows tid pid page m = .returned (context, m')) :
    ∃ elf i, imageOf ops m.vfs (m.table pid).executable = some elf ∧ i ∈ m.pool.free ∧
      (addrKernelToPhys (pagetableAddress (m'.threads tid).pagetable)).toNat / PAGE_SIZE = i ∧
      Reserved (imagePages stackSize elf) (m.pool.free.erase i) m'.pool.free ∧
      m'.pool.numPages = m.pool.numPages := by
  simp only [processStart, Prog.bind_modify_apply, Prog.bind_gets_apply,
    Prog.bind_assert_apply] at ran
  split at ran
  · obtain ⟨pagetable, m₁, first, ran⟩ := Prog.bind_returned.1 ran
    obtain ⟨pool, created, rfl⟩ := Prog.zoom_returned.1 first
    simp only [Prog.bind_assert_apply, Prog.bind_modify_apply] at ran
    split at ran
    · rename_i created_
      obtain ⟨ref, rfl⟩ := Option.isSome_iff_exists.1 created_
      obtain ⟨i, member, address, erased, size⟩ := Pagepool.vmCreatePagetable_returned created
      obtain ⟨file, m₂, second, ran⟩ := Prog.bind_returned.1 ran
      obtain ⟨vfs, opened, rfl⟩ := Prog.zoom_returned.1 second
      simp only [Prog.bind_assert_apply] at ran
      split at ran
      · obtain ⟨elf, m₃, third, ran⟩ := Prog.bind_returned.1 ran
        obtain ⟨vfs', parsed, rfl⟩ := Prog.zoom_returned.1 third
        cases elf with
        | none => cases ran
        | some elf =>
            have fits := elfParseHeader_fits ops file _ _ _ parsed elf rfl
            obtain ⟨kept, same⟩ := loadImage_takes ops stackSize rows file fits _ _ _ ran
            simp only [Prod.mk.injEq] at same
            refine ⟨elf, i, ?_, member, ?_, ?_, same.2.trans size⟩
            · have opened : vfsOpen ops (m.table pid).executable m.vfs = .returned (file, vfs) :=
                opened
              have parsed : elfParseHeader ops file vfs = .returned (some elf, vfs') := parsed
              simp only [imageOf, opened, parsed]
            · rw [same.1]
              simpa [Machine.setThread, pagetableAddress] using address
            · have erased : pool.free = m.pool.free.erase i := erased
              rw [← erased]
              exact kept
      · cases ran
    · cases ran
  · cases ran

/-- A finish frees the page that the page table's address names. -/
theorem processFinish_free {retval : Int}
    (ran : processFinish tid retval m = .returned ((), m'))
    {i : Nat} (address : (addrKernelToPhys (pagetableAddress (m.threads tid).pagetable)).toNat /
      PAGE_SIZE = i) (within : i < m.pool.numPages) :
    m'.pool.free = insert i m.pool.free := by
  simp only [processFinish, Prog.bind_gets_apply] at ran
  obtain ⟨_, m₁, first, ran⟩ := Prog.bind_returned.1 ran
  obtain ⟨table, -, rfl⟩ := Prog.zoom_returned.1 first
  obtain ⟨_, m₂, second, ran⟩ := Prog.bind_returned.1 ran
  obtain ⟨pool, freed, rfl⟩ := Prog.zoom_returned.1 second
  cases ran
  subst address
  exact pagepoolFreePhysPage_returned freed within

/-- A spawn that finds an entry leaves in it the name of the executable, as far as it fits,
and touches neither pages nor files. -/
theorem processSpawn_returned {cur pid : Int} {executable : Name}
    (ran : processSpawn cur tid executable m = .returned (pid, m'))
    (found : pid ≠ PROCESS_PTABLE_FULL) :
    m'.pool = m.pool ∧ m'.vfs = m.vfs ∧
      (m'.table pid).executable = stringcopy executable PROCESS_MAX_FILELENGTH := by
  obtain ⟨pid', m₁, first, ran⟩ := Prog.bind_returned.1 ran
  obtain ⟨table, spawned, rfl⟩ := Prog.zoom_returned.1 first
  simp only [Prog.ite_apply] at ran
  split at ran
  · cases ran
    exact absurd rfl found
  · cases ran
    refine ⟨rfl, rfl, ?_⟩
    obtain ⟨pid', table', -, spawned⟩ := Prog.bind_returned.1 spawned
    split at spawned
    · cases spawned
      exact absurd rfl found
    · split at spawned
      · cases spawned
      · cases spawned
        change (spawnFill _ _ _ _ _).executable = _
        simp [spawnFill]

theorem processJoin_pool {cur pid ret : Int}
    (ran : processJoin cur pid m = .returned (ret, m')) : m'.pool = m.pool := by
  unfold processJoin onTable at ran
  obtain ⟨table, -, rfl⟩ := Prog.zoom_returned.1 ran
  rfl

/-- A life keeps the pages of its stack and its segments. -/
theorem processLife_reserved {cur : Int} {executable : Name} {page : Nat → TlbEntry}
    {retval ret : Int}
    (ran : processLife ops stackSize rows cur tid executable page retval m = .returned (ret, m')) :
    ∃ elf, imageOf ops m.vfs (stringcopy executable PROCESS_MAX_FILELENGTH) = some elf ∧
      Reserved (imagePages stackSize elf) m.pool.free m'.pool.free := by
  obtain ⟨pid, m₁, spawned, ran⟩ := Prog.bind_returned.1 ran
  rw [Prog.bind_assert_apply] at ran
  split at ran
  · rename_i found
    obtain ⟨pool, vfs, named⟩ := processSpawn_returned spawned (by simpa using found)
    obtain ⟨context, m₂, started, ran⟩ := Prog.bind_returned.1 ran
    obtain ⟨elf, i, image, member, address, kept, size⟩ :=
      processStart_returned ops stackSize rows started
    obtain ⟨_, m₃, finished, joined⟩ := Prog.bind_returned.1 ran
    rw [vfs, named] at image
    rw [pool] at member kept size
    refine ⟨elf, image, ?_⟩
    have within : i < m₂.pool.numPages := by
      rw [size]
      exact (mem_clearBits.1 member).1
    have freed := processFinish_free finished address within
    rw [processJoin_pool joined, freed]
    exact .borrow member kept
  · cases ran

/-- **What a life leaves of the pool.**  A process that is spawned, started, finished and
joined leaves the free pages as they were exactly if its image and its stack have no page
at all: the exit path frees the page of the page table and none of those mapped in it. -/
theorem processLife_same_iff {cur : Int} {executable : Name} {page : Nat → TlbEntry}
    {retval ret : Int} {elf : ElfInfo}
    (image : imageOf ops m.vfs (stringcopy executable PROCESS_MAX_FILELENGTH) = some elf)
    (ran : processLife ops stackSize rows cur tid executable page retval m = .returned (ret, m')) :
    m'.pool.free = m.pool.free ↔ imagePages stackSize elf = 0 := by
  obtain ⟨elf', image', reserved⟩ := processLife_reserved ops stackSize rows ran
  rw [image] at image'
  cases image'
  exact reserved.same_iff

end Life

/-! ## A small program -/

/-- A driver with one file, which is never written. -/
def imageFile (content : List Byte) : FsOps Unit where
  unmount := pure 0
  openFile _ := pure 0
  close _ := pure 0
  read _ size offset :=
    let bytes := (content.drop offset.toNat).take size.toNat
    pure (bytes.length, bytes)
  write _ _ _ _ := pure (-1)
  create _ _ := pure (-1)
  remove _ := pure (-1)
  getfree := pure 0
  filecount _ := pure 0
  file _ _ := pure (0, [])

/-- An executable with a read-only segment of one page at 0x1000, of which eight bytes are in
the file, and a read-write segment of two pages at 0x10000 with nothing in the file. -/
def smallProgram : List Byte :=
  [0x7f, 0x45, 0x4c, 0x46, 1, 2, 1, 0, 0, 0, 0, 0, 0, 0, 0, 0,
    0, 2, 0, 8, 0, 0, 0, 1, 0, 0, 0x10, 0, 0, 0, 0, 52, 0, 0, 0, 0,
    0, 0, 0, 0, 0, 52, 0, 32, 0, 2, 0, 0, 0, 0, 0, 0,
    0, 0, 0, 1, 0, 0, 0, 116, 0, 0, 0x10, 0, 0, 0, 0, 0, 0, 0, 0, 8, 0, 0, 0, 8, 0, 0, 0, 5,
    0, 0, 0, 0,
    0, 0, 0, 1, 0, 0, 0, 124, 0, 1, 0, 0, 0, 0, 0, 0, 0, 0, 0, 0, 0, 0, 0x20, 0, 0, 0, 0, 6,
    0, 0, 0, 0,
    0, 0, 0, 0, 0, 0, 0, 0]

def programName : Name := [leftBracket, ⟨0x61#8, by decide⟩, rightBracket, ⟨0x66#8, by decide⟩]

/-- Sixteen pages, two of them static, and no process. -/
def freshMachine : Machine Unit where
  table := zeroTable
  vfs := (vfsInit fun _ => ()).setFilesystem 0
    { filesystem := some 0, mountpoint := [⟨0x61#8, by decide⟩] }
  pool := pagepoolInit 16 2 (by decide)
  threads := fun _ => { pagetable := none, processId := kernelPid }

def emptyPage : Nat → TlbEntry := fun _ =>
  { vpn2 := 0, asid := 0, pfn0 := 0, d0 := false, v0 := false, g0 := false, pfn1 := 0
    d1 := false, v1 := false, g1 := false }

/-- The program run from the first kernel thread, as thread 1. -/
def smallLife : Prog (Machine Unit) Int :=
  processLife (imageFile smallProgram) 1 64 kernelPid 1 programName emptyPage 7

/-- The exit value of the run and the pages that are free after it. -/
def outcome {α : Type} (p : Prog (Machine Unit) α) (m : Machine Unit) : Option (α × Finset Nat) :=
  match p m with
  | .returned (a, m') => some (a, m'.pool.free)
  | .stopped _ => none

theorem outcome_some {α : Type} {p : Prog (Machine Unit) α} {m : Machine Unit} {a : α}
    {pages : Finset Nat} (found : outcome p m = some (a, pages)) :
    ∃ m', p m = .returned (a, m') ∧ m'.pool.free = pages := by
  unfold outcome at found
  split at found
  · rename_i a' m' ran
    cases found
    exact ⟨m', ran, rfl⟩
  · cases found

set_option maxRecDepth 10000

theorem smallLife_outcome :
    outcome smallLife freshMachine = some (7, {2, 7, 8, 9, 10, 11, 12, 13, 14, 15}) := by
  decide +kernel

/-- The program exits and its parent gets the exit value, but four of the fourteen pages
that were free at the start are not free again. -/
theorem life_loses_pages :
    ∃ m', smallLife freshMachine = .returned (7, m') ∧
      m'.pool.free ≠ freshMachine.pool.free := by
  obtain ⟨m', ran, pages⟩ := outcome_some smallLife_outcome
  refine ⟨m', ran, ?_⟩
  rw [pages]
  decide +kernel

theorem processLife_same_iff_small :
    ∃ m' elf, smallLife freshMachine = .returned (7, m') ∧ imagePages 1 elf = 4 ∧
      (m'.pool.free = freshMachine.pool.free ↔ imagePages 1 elf = 0) := by
  obtain ⟨m', ran, -⟩ := outcome_some smallLife_outcome
  have image : ∃ elf, imageOf (imageFile smallProgram) freshMachine.vfs
      (stringcopy programName PROCESS_MAX_FILELENGTH) = some elf ∧ imagePages 1 elf = 4 := by
    refine ⟨{ entryPoint := 0x1000, roLocation := 116, roSize := 8, roPages := 1, roVaddr := 0x1000,
              rwLocation := 124, rwSize := 0, rwPages := 2, rwVaddr := 0x10000 }, ?_, ?_⟩
    · decide +kernel
    · decide
  obtain ⟨elf, found, pages⟩ := image
  exact ⟨m', elf, ran, pages, processLife_same_iff (imageFile smallProgram) 1 64 found ran⟩

end Buenos.Proc.Pages
