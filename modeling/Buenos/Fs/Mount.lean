/-
# Fs.Mount -- initializing a filesystem on a disk

`filesystems_try_all` of fs/filesystems.c with the `init` functions of the three drivers, and
`vfs_mount_fs` of fs/vfs.c with their `unmount` functions.  What they take is a semaphore for the
lock and a page for the `fs_t`, its buffers behind it; a block is read by drivers/disk.c, which
takes a semaphore for as long as the request lasts.

The tables that they are taken from are those of `Net.Sockets` and `Vm.Pagepool`, and `disk` is any
disk: any blocks, any block size and any answers to requests.  The page is read where its address
in the unmapped segment points, so the program stops when it lies beyond that segment.
-/
import Buenos.Fs.MountTable
import Buenos.Fs.NewFs
import Buenos.Fs.Tfs
import Buenos.Net.Sockets
import Buenos.Vm.PagepoolRuns

namespace Buenos.Fs

open Buenos.Lib Buenos.Net Buenos.Theory Buenos.Vm

set_option autoImplicit false

def TFS_MAGIC : Word := 3745
def TFS_VOLUMENAME_MAX : Nat := 16
def FLATFS_MAGIC : Word := 0x00BAB5E2
def FLATFS_VOLUMENAME_MAX : Nat := 16

/-- The tables of the kernel, and the disk that is tried. -/
structure Mounter (σ : Type) where
  vfs : Vfs σ
  table : Sockets
  pool : Pagepool
  blockSize : Word
  disk : Disk

/-- The `unmount` that `init` stores. -/
inductive FsDriver where
  | tfs
  | flatfs
  | newfs

/-- An `fs_t` at its address, with the lock and the size of the driver's own structure. -/
structure FsT where
  address : Word
  driver : FsDriver
  volumeName : Name
  lock : Nat
  totalblocks : Word

namespace Mounter

variable {σ : Type} {α : Type}

def onVfs (m : Prog (Vfs σ) α) : Prog (Mounter σ) α :=
  Prog.zoom (fun s => s.vfs) (fun vfs s => { s with vfs := vfs }) m

def onTable (m : Prog Sockets α) : Prog (Mounter σ) α :=
  Prog.zoom (fun s => s.table) (fun table s => { s with table := table }) m

def onPool (m : Prog Pagepool α) : Prog (Mounter σ) α :=
  Prog.zoom (fun s => s.pool) (fun pool s => { s with pool := pool }) m

def onDisk (m : Prog Disk α) : Prog (Mounter σ) α :=
  Prog.zoom (fun s => s.disk) (fun disk s => { s with disk := disk }) m

/-- `semaphore_P` on the table: a semaphore without a free value puts the caller to sleep. -/
def semaphoreP (sem : Nat) : Prog Sockets Unit := do
  Prog.assert (fun s => 0 < (s.semaphoreTable sem).value) .asleep
  Prog.modify fun s => s.setSemaphore sem
    { s.semaphoreTable sem with value := (s.semaphoreTable sem).value - 1 }

def semaphoreV (sem : Nat) : Prog Sockets Unit :=
  Prog.modify fun s => s.setSemaphore sem
    { s.semaphoreTable sem with value := (s.semaphoreTable sem).value + 1 }

/-- `disk_read_block` with a request that has no semaphore.  The interrupt handler raises the
semaphore of the request that it has served. -/
def diskReadBlock (thread : Nat) (block : Word) : Prog (Mounter σ) (Option Block) := do
  match ← onTable (Sockets.semaphoreCreate thread 0) with
  | none => pure none
  | some sem => do
      let served ← onDisk (diskSubmitRequest ⟨block.toNat, .read⟩ id)
      onTable (semaphoreV sem)
      onTable (semaphoreP sem)
      onTable (Sockets.semaphoreDestroy sem)
      let content ← Prog.gets fun s => s.disk.blocks block.toNat
      pure (if served then some content else none)

/-! ## The drivers -/

/-- What the `init` functions have in common. -/
def fsInit (thread : Nat) (driver : FsDriver) (size magic : Word) (nameMax : Nat)
    (totalblocks : Disk → Block → Word) :
    Prog (Mounter σ) (Option FsT) := do
  let blockSize ← Prog.gets fun s => s.blockSize
  if blockSize ≠ size then pure none
  else do
    match ← onTable (Sockets.semaphoreCreate thread 1) with
    | none => pure none
    | some sem => do
        let page ← onPool pagepoolGetPhysPage
        if page = 0 then do
          onTable (Sockets.semaphoreDestroy sem)
          pure none
        else do
          let addr := addrPhysToKernel page
          match ← diskReadBlock thread 0 with
          | none => do
              onTable (Sockets.semaphoreDestroy sem)
              onPool (pagepoolFreePhysPage (addrKernelToPhys addr))
              pure none
          | some header => do
              Prog.assert (fun _ => page.toNat < KSEG0_SIZE) .outOfBounds
              if header 0 ≠ magic then do
                onTable (Sockets.semaphoreDestroy sem)
                onPool (pagepoolFreePhysPage (addrKernelToPhys addr))
                pure none
              else do
                let disk ← Prog.gets fun s => s.disk
                let name := stringcopy (nameAt header 4) nameMax
                pure (some
                  { address := addr
                    driver := driver
                    volumeName := stringcopy name VFS_NAME_LENGTH
                    lock := sem
                    totalblocks := totalblocks disk header })

def tfsInit (thread : Nat) : Prog (Mounter σ) (Option FsT) :=
  fsInit thread .tfs (BitVec.ofNat 32 TFS_BLOCK_SIZE) TFS_MAGIC TFS_VOLUMENAME_MAX fun disk _ =>
    BitVec.ofNat 32 (min disk.totalBlocks (8 * TFS_BLOCK_SIZE))

def flatfsInit (thread : Nat) : Prog (Mounter σ) (Option FsT) :=
  fsInit thread .flatfs (BitVec.ofNat 32 FLATFS_BLOCK_SIZE) FLATFS_MAGIC FLATFS_VOLUMENAME_MAX
    fun disk _ => BitVec.ofNat 32 (min disk.totalBlocks (8 * FLATFS_BLOCK_SIZE))

/-- The block of the root directory is read for a message, whether the read succeeds or not. -/
def newfsInit (thread : Nat) : Prog (Mounter σ) (Option FsT) := do
  match ← fsInit thread .newfs (BitVec.ofNat 32 NEWFS_BLOCK_SIZE) NEWFS_MAGIC NEWFS_VOLUMENAME_MAX
      fun _ superblock => superblock 5 with
  | none => pure none
  | some fs => do
      let _ ← diskReadBlock thread (newfsDirectoryBlock fs.totalblocks)
      pure (some fs)

/-- What the `unmount` functions do. -/
def fsUnmount (fs : FsT) : Prog (Mounter σ) Int := do
  onTable (semaphoreP fs.lock)
  onTable (Sockets.semaphoreDestroy fs.lock)
  onPool (pagepoolFreePhysPage (addrKernelToPhys fs.address))
  pure VFS_OK

def tfsUnmount (fs : FsT) : Prog (Mounter σ) Int := fsUnmount fs
def flatfsUnmount (fs : FsT) : Prog (Mounter σ) Int := fsUnmount fs
def newfsUnmount (fs : FsT) : Prog (Mounter σ) Int := fsUnmount fs

/-- `fs->unmount(fs)`. -/
def unmount (fs : FsT) : Prog (Mounter σ) Int :=
  match fs.driver with
  | .tfs => tfsUnmount fs
  | .flatfs => flatfsUnmount fs
  | .newfs => newfsUnmount fs

/-! ## Mounting -/

/-- The `init` functions of `filesystems`. -/
def filesystems (thread : Nat) : List (Prog (Mounter σ) (Option FsT)) :=
  [tfsInit thread, flatfsInit thread, newfsInit thread]

def tryAll : List (Prog (Mounter σ) (Option FsT)) → Prog (Mounter σ) (Option FsT)
  | [] => pure none
  | init :: drivers => do
      match ← init with
      | some fs => pure (some fs)
      | none => tryAll drivers

def filesystemsTryAll (thread : Nat) : Prog (Mounter σ) (Option FsT) := tryAll (filesystems thread)

def vfsMountFs (thread : Nat) (volumename : Option Name) : Prog (Mounter σ) Int := do
  match ← filesystemsTryAll thread with
  | none => pure VFS_NO_SUCH_FS
  | some fs => do
      let volumename := volumename.getD fs.volumeName
      if volumename = [] then do
        let _ ← unmount fs
        pure VFS_INVALID_PARAMS
      else do
        let ret ← onVfs (vfsMount fs.address.toNat volumename)
        if ret = VFS_OK then pure ret
        else do
          let _ ← unmount fs
          pure ret

/-! ## What is held -/

/-- The semaphores in use. -/
def semaphoresInUse (table : Sockets) : Finset Nat :=
  (Finset.range CONFIG_MAX_SEMAPHORES).filter fun i => (table.semaphoreTable i).creator ≠ -1

/-- A page pool whose static pages are reserved, page zero among them, in a memory that ends below
the top bit: `kmalloc` gives out nothing in a larger one. -/
structure PoolReady (pool : Pagepool) : Prop where
  positive : 0 < pool.staticEnd
  static : ∀ i, i < pool.staticEnd → bitmapGet pool.freePages i = true
  below : pool.numPages ≤ 0x80000

/-- Any state of the two tables; `next` stays inside the semaphore table. -/
structure Ready (s : Mounter σ) : Prop where
  next : s.table.next < CONFIG_MAX_SEMAPHORES
  pool : PoolReady s.pool

/-- A state with these semaphores in use and these pages free, out of `n`. -/
structure Holding (n : Nat) (semaphores pages : Finset Nat) (s : Mounter σ) : Prop where
  ready : s.Ready
  numPages : s.pool.numPages = n
  semaphores : semaphoresInUse s.table = semaphores
  pages : s.pool.free = pages

/-- What an `init` function has taken for a filesystem. -/
def Taken (n : Nat) (semaphores pages : Finset Nat) (fs : FsT) (s : Mounter σ) : Prop :=
  fs.lock ∉ semaphores ∧ ∃ i ∈ pages, i < n ∧ i < 0x80000 ∧
    fs.address = addrPhysToKernel (BitVec.ofNat 32 (i * PAGE_SIZE)) ∧
    Holding n (insert fs.lock semaphores) (pages.erase i) s

/-- The semaphores in use and the free pages of `t` are those of `s`. -/
structure Released (s t : Mounter σ) : Prop where
  semaphores : semaphoresInUse t.table = semaphoresInUse s.table
  pages : t.pool.free = s.pool.free

/-! ## The semaphore table -/

section Rules

variable {n : Nat} {semaphores pages : Finset Nat} {s : Mounter σ}

theorem mem_semaphoresInUse {table : Sockets} {i : Nat} :
    i ∈ semaphoresInUse table ↔ i < CONFIG_MAX_SEMAPHORES ∧ (table.semaphoreTable i).creator ≠ -1 := by
  simp [semaphoresInUse]

theorem semaphoresInUse_setSemaphore_used {table : Sockets} {i : Nat} {e : SemaphoreEntry}
    (inside : i < CONFIG_MAX_SEMAPHORES) (used : e.creator ≠ -1) :
    semaphoresInUse (table.setSemaphore i e) = insert i (semaphoresInUse table) := by
  ext k
  rw [Finset.mem_insert, mem_semaphoresInUse, mem_semaphoresInUse, Sockets.setSemaphore_semaphoreTable,
    Function.update_apply]
  split
  · rename_i same
    simp [same, inside, used]
  · rename_i other
    simp [other]

theorem semaphoresInUse_setSemaphore_free {table : Sockets} {i : Nat} {e : SemaphoreEntry}
    (free : e.creator = -1) :
    semaphoresInUse (table.setSemaphore i e) = (semaphoresInUse table).erase i := by
  ext k
  rw [Finset.mem_erase, mem_semaphoresInUse, mem_semaphoresInUse, Sockets.setSemaphore_semaphoreTable,
    Function.update_apply]
  split
  · rename_i same
    simp [same, free]
  · rename_i other
    simp [other]

/-- A change of the table that leaves the creators. -/
theorem Holding.table {table : Sockets} (holding : Holding n semaphores pages s)
    (next : table.next < CONFIG_MAX_SEMAPHORES) {semaphores' : Finset Nat}
    (inUse : semaphoresInUse table = semaphores') :
    Holding n semaphores' pages { s with table := table } :=
  ⟨⟨next, holding.ready.pool⟩, holding.numPages, inUse, holding.pages⟩

theorem semaphoreCreate_holding (holding : Holding n semaphores pages s) (thread : Nat) {value : Int}
    (nonneg : 0 ≤ value) :
    (onTable (Sockets.semaphoreCreate thread value)).Keeps s fun sem t =>
      match sem with
      | none => Holding n semaphores pages t
      | some sem => sem ∉ semaphores ∧ Holding n (insert sem semaphores) pages t := by
  refine .zoom fun sem table ran => ?_
  obtain ⟨next, bound, ⟨-, failed⟩ | ⟨semId, inside, free, made⟩⟩ :=
    Sockets.semaphoreCreate_cases thread nonneg s.table holding.ready.next
  · rw [failed] at ran
    cases ran
    exact holding.table bound holding.semaphores
  · rw [made] at ran
    cases ran
    have unused : semId ∉ semaphores := by
      rw [← holding.semaphores, mem_semaphoresInUse]
      exact fun used => used.2 free
    have creator : (thread : Int) ≠ -1 := by omega
    refine ⟨unused, holding.table bound ?_⟩
    rw [semaphoresInUse_setSemaphore_used inside creator, ← holding.semaphores]
    rfl

theorem semaphoreDestroy_holding {sem : Nat} (unused : sem ∉ semaphores)
    (holding : Holding n (insert sem semaphores) pages s) :
    (onTable (Sockets.semaphoreDestroy sem)).Keeps s fun _ t => Holding n semaphores pages t := by
  refine .zoom fun _ table ran => ?_
  cases ran
  refine holding.table (by exact holding.ready.next) ?_
  rw [semaphoresInUse_setSemaphore_free rfl, holding.semaphores, Finset.erase_insert unused]

/-- Raising or lowering a semaphore in use leaves it in use. -/
theorem setValue_holding (holding : Holding n semaphores pages s) (sem : Nat) (value : Int) :
    Holding n semaphores pages
      { s with table := s.table.setSemaphore sem { s.table.semaphoreTable sem with value := value } } := by
  refine holding.table (by exact holding.ready.next) ?_
  rw [← holding.semaphores]
  ext k
  rw [mem_semaphoresInUse, mem_semaphoresInUse, Sockets.setSemaphore_semaphoreTable, Function.update_apply]
  split
  · rename_i same
    rw [same]
  · rfl

theorem semaphoreV_holding (holding : Holding n semaphores pages s) (sem : Nat) :
    (onTable (semaphoreV sem)).Keeps s fun _ t => Holding n semaphores pages t := by
  refine .zoom fun _ table ran => ?_
  cases ran
  exact setValue_holding holding sem _

theorem semaphoreP_holding (holding : Holding n semaphores pages s) (sem : Nat) :
    (onTable (semaphoreP sem)).Keeps s fun _ t => Holding n semaphores pages t := by
  refine .zoom fun _ table ran => ?_
  simp only [semaphoreP, Prog.bind_assert_apply] at ran
  split at ran
  · cases ran
    exact setValue_holding holding sem _
  · cases ran

/-- A request gives its semaphore back. -/
theorem diskReadBlock_holding (holding : Holding n semaphores pages s) (thread : Nat) (block : Word) :
    (diskReadBlock thread block).Keeps s fun _ t => Holding n semaphores pages t := by
  refine (semaphoreCreate_holding holding thread (Int.le_refl 0)).bind fun sem t created => ?_
  cases sem with
  | none => exact .pure created
  | some sem =>
      obtain ⟨unused, holding⟩ := created
      have onDisk_holding : (onDisk (diskSubmitRequest ⟨block.toNat, .read⟩ id)).Keeps t
          fun _ u => Holding n (insert sem semaphores) pages u :=
        .zoom fun _ disk _ => ⟨⟨holding.ready.next, holding.ready.pool⟩, holding.numPages, holding.semaphores, holding.pages⟩
      refine onDisk_holding.bind fun served t holding => ?_
      refine (semaphoreV_holding holding sem).bind fun _ t holding => ?_
      refine (semaphoreP_holding holding sem).bind fun _ t holding => ?_
      refine (semaphoreDestroy_holding unused holding).bind fun _ t holding => ?_
      exact .pure holding

/-! ## The page pool -/

/-- A change of the pool that leaves its static pages reserved. -/
theorem Holding.withPool {pool : Pagepool} (holding : Holding n semaphores pages s) (ready : PoolReady pool)
    (numPages : pool.numPages = n) {pages' : Finset Nat} (free : pool.free = pages') :
    Holding n semaphores pages' { s with pool := pool } :=
  ⟨⟨holding.ready.next, ready⟩, numPages, holding.semaphores, free⟩

/-- Page zero is static, so zero is the answer only when no page is free. -/
theorem pagepoolGetPhysPage_holding (holding : Holding n semaphores pages s) :
    (onPool pagepoolGetPhysPage).Keeps s fun page t =>
      if page = 0 then Holding n semaphores pages t
      else ∃ i ∈ pages, i < n ∧ i < 0x80000 ∧ page = BitVec.ofNat 32 (i * PAGE_SIZE) ∧
        Holding n semaphores (pages.erase i) t := by
  obtain ⟨positive, static, below⟩ := holding.ready.pool
  refine .zoom fun page pool ran => ?_
  simp only [pagepoolGetPhysPage, Prog.bind_gets_apply, Prog.ite_apply, id_eq] at ran
  split at ran
  · cases found : bitmapFindnset s.pool.freePages s.pool.numPages with
    | none => simp [found] at ran
    | some pair =>
        obtain ⟨i, freePages⟩ := pair
        obtain ⟨within, clear, -, rfl⟩ := bitmapFindnset_some found
        simp only [found, Prog.bind_modify_apply, Prog.pure_apply, Outcome.returned.injEq,
          Prod.mk.injEq] at ran
        obtain ⟨rfl, rfl⟩ := ran
        have dynamic : s.pool.staticEnd ≤ i := by
          by_contra early
          rw [static i (Nat.not_le.1 early)] at clear
          cases clear
        have value : (BitVec.ofNat 32 (i * PAGE_SIZE)).toNat = i * PAGE_SIZE := by
          rw [BitVec.toNat_ofNat, Nat.mod_eq_of_lt]
          unfold PAGE_SIZE
          omega
        have nonzero : BitVec.ofNat 32 (i * PAGE_SIZE) ≠ 0 := by
          intro zero
          rw [zero] at value
          unfold PAGE_SIZE at value
          have : (0 : BitVec 32).toNat = 0 := rfl
          omega
        rw [if_neg nonzero]
        refine ⟨i, ?_, holding.numPages ▸ within, by omega, rfl, ?_⟩
        · rw [← holding.pages]
          exact mem_clearBits.2 ⟨within, clear⟩
        · refine holding.withPool ⟨?_, fun k early => ?_, ?_⟩ ?_ ?_
          · exact positive
          · rw [bitmapGet_bitmapSet, static k early, ite_self]
          · exact below
          · exact holding.numPages
          · rw [← holding.pages]
            exact clearBits_bitmapSet
  · cases ran
    exact holding

/-- The page behind an address of the unmapped segment is freed. -/
theorem pagepoolFreePhysPage_holding {i : Nat} (taken : i ∈ pages) (within : i < n) (low : i < 0x80000)
    (holding : Holding n semaphores (pages.erase i) s) :
    (onPool (pagepoolFreePhysPage (addrKernelToPhys (addrPhysToKernel (BitVec.ofNat 32 (i * PAGE_SIZE)))))).Keeps s
      fun _ t => Holding n semaphores pages t := by
  obtain ⟨positive, static, below⟩ := holding.ready.pool
  have value : (BitVec.ofNat 32 (i * PAGE_SIZE)).toNat = i * PAGE_SIZE := by
    rw [BitVec.toNat_ofNat, Nat.mod_eq_of_lt]
    unfold PAGE_SIZE
    omega
  have page : (addrKernelToPhys (addrPhysToKernel (BitVec.ofNat 32 (i * PAGE_SIZE)))).toNat / PAGE_SIZE = i := by
    rw [addrKernelToPhys_low, value, Nat.mul_div_cancel _ (by decide)]
    rw [value]
    unfold PAGE_SIZE
    omega
  refine .zoom fun _ pool ran => ?_
  simp only [pagepoolFreePhysPage, page, Prog.bind_assert_apply] at ran
  split at ran
  · rename_i dynamic
    split at ran
    · cases ran
      refine holding.withPool ⟨?_, fun k early => ?_, ?_⟩ ?_ ?_
      · exact positive
      · rw [bitmapGet_bitmapSet, if_neg, static k early]
        have := of_decide_eq_true dynamic
        change k < s.pool.staticEnd at early
        omega
      · exact below
      · exact holding.numPages
      · have inside : i < s.pool.numPages := holding.numPages.symm ▸ within
        have freed : clearBits (bitmapSet s.pool.freePages i false) s.pool.numPages =
            insert i s.pool.free := clearBits_bitmapSet_false inside
        rw [holding.pages, Finset.insert_erase taken] at freed
        exact freed
    · cases ran
  · cases ran

/-! ## The drivers and the mount -/

/-- What an `init` function promises. -/
def Careful (init : Prog (Mounter σ) (Option FsT)) : Prop :=
  ∀ n semaphores pages s, Holding n semaphores pages s → init.Keeps s fun fs t =>
    match fs with
    | none => Holding n semaphores pages t
    | some fs => Taken n semaphores pages fs t

theorem fsInit_careful (thread : Nat) (driver : FsDriver) (size magic : Word) (nameMax : Nat)
    (totalblocks : Disk → Block → Word) :
    Careful (σ := σ) (fsInit thread driver size magic nameMax totalblocks) := by
  intro n semaphores pages s holding
  refine Prog.Keeps.bind (Q := fun _ t => Holding n semaphores pages t) (fun _ _ ran => by cases ran; exact holding)
    fun blockSize s holding => .ite (.pure holding) ?_
  refine (semaphoreCreate_holding holding thread (by decide)).bind fun sem s created => ?_
  cases sem with
  | none => exact .pure created
  | some sem =>
      obtain ⟨unused, holding⟩ := created
      refine (pagepoolGetPhysPage_holding holding).bind fun page s got => ?_
      by_cases zero : page = 0
      · rw [if_pos zero] at got ⊢
        exact (semaphoreDestroy_holding unused got).bind fun _ t holding => .pure holding
      · rw [if_neg zero] at got ⊢
        obtain ⟨i, taken, within, low, rfl, holding⟩ := got
        refine (diskReadBlock_holding holding thread 0).bind fun header s holding => ?_
        cases header with
        | none =>
            refine (semaphoreDestroy_holding unused holding).bind fun _ s holding => ?_
            exact (pagepoolFreePhysPage_holding taken within low holding).bind fun _ t holding => .pure holding
        | some header =>
            refine .assert_bind fun _ => .ite ?_ (.gets_bind (.pure ?_))
            · refine (semaphoreDestroy_holding unused holding).bind fun _ s holding => ?_
              exact (pagepoolFreePhysPage_holding taken within low holding).bind fun _ t holding => .pure holding
            · exact ⟨unused, i, taken, within, low, rfl, holding⟩

theorem newfsInit_careful (thread : Nat) : Careful (σ := σ) (newfsInit thread) := by
  intro n semaphores pages s holding
  refine (fsInit_careful thread _ _ _ _ _ n semaphores pages s holding).bind fun fs s taken => ?_
  cases fs with
  | none => exact .pure taken
  | some fs =>
      obtain ⟨unused, i, page, within, low, address, holding⟩ := taken
      refine (diskReadBlock_holding holding thread _).bind fun _ t holding => .pure ?_
      exact ⟨unused, i, page, within, low, address, holding⟩

/-- Drivers that are careful one by one are so in turn. -/
theorem tryAll_careful {drivers : List (Prog (Mounter σ) (Option FsT))}
    (careful : ∀ init ∈ drivers, Careful init) : Careful (tryAll drivers) := by
  induction drivers with
  | nil => exact fun n semaphores pages s holding => .pure holding
  | cons init drivers ih =>
      intro n semaphores pages s holding
      have later := ih fun init listed => careful init (List.mem_cons_of_mem _ listed)
      refine (careful init List.mem_cons_self n semaphores pages s holding).bind fun fs s tried => ?_
      cases fs with
      | none => exact later n semaphores pages s tried
      | some fs => exact .pure tried

theorem filesystemsTryAll_careful (thread : Nat) : Careful (σ := σ) (filesystemsTryAll thread) := by
  refine tryAll_careful fun init listed => ?_
  simp only [filesystems, List.mem_cons, List.not_mem_nil, or_false] at listed
  rcases listed with rfl | rfl | rfl
  · exact fsInit_careful thread _ _ _ _ _
  · exact fsInit_careful thread _ _ _ _ _
  · exact newfsInit_careful thread

/-- The unmount gives back what the `init` function took. -/
theorem unmount_taken {fs : FsT} (taken : Taken n semaphores pages fs s) :
    (unmount fs).Keeps s fun _ t => Holding n semaphores pages t := by
  obtain ⟨unused, i, page, within, low, address, holding⟩ := taken
  have unmounts : unmount (σ := σ) fs = fsUnmount fs := by
    rw [unmount]
    cases fs.driver <;> rfl
  rw [unmounts, fsUnmount, address]
  refine (semaphoreP_holding holding fs.lock).bind fun _ s holding => ?_
  refine (semaphoreDestroy_holding unused holding).bind fun _ s holding => ?_
  exact (pagepoolFreePhysPage_holding page within low holding).bind fun _ t holding => .pure holding

theorem vfsMountFs_holding (thread : Nat) (volumename : Option Name) (holding : Holding n semaphores pages s) :
    (vfsMountFs thread volumename).Keeps s fun ret t => ret ≠ VFS_OK → Holding n semaphores pages t := by
  refine (filesystemsTryAll_careful thread n semaphores pages s holding).bind fun fs s tried => ?_
  cases fs with
  | none => exact .pure fun _ => tried
  | some fs =>
      refine .ite ?_ ?_
      · exact (unmount_taken tried).bind fun _ t holding => .pure fun _ => holding
      · have mounted : (onVfs (vfsMount fs.address.toNat (volumename.getD fs.volumeName))).Keeps s
            fun _ t => Taken n semaphores pages fs t := by
          obtain ⟨unused, i, page, within, low, address, holding⟩ := tried
          exact .zoom fun _ vfs _ => ⟨unused, i, page, within, low, address,
            ⟨⟨holding.ready.next, holding.ready.pool⟩, holding.numPages, holding.semaphores, holding.pages⟩⟩
        refine mounted.bind fun ret s taken => ?_
        by_cases ok : ret = VFS_OK
        · rw [if_pos ok]
          exact .pure fun failed => absurd ok failed
        · rw [if_neg ok]
          exact (unmount_taken taken).bind fun _ t holding => .pure fun _ => holding

theorem Ready.holding (ready : s.Ready) :
    Holding s.pool.numPages (semaphoresInUse s.table) s.pool.free s := ⟨ready, rfl, rfl, rfl⟩

theorem Holding.released {t : Mounter σ}
    (holding : Holding s.pool.numPages (semaphoresInUse s.table) s.pool.free t) : Released s t :=
  ⟨holding.semaphores, holding.pages⟩

end Rules

/-- The page pool is ready from boot on. -/
theorem poolReady_reachable {machine : Pool.Machine} {regions : List Kernel.Region} {s : Pool.State}
    (inside : machine.static ≤ machine.numPages * PAGE_SIZE) (low : machine.static < 0x80000000)
    (reached : (Pool.poolSystem machine regions).ReachableWhen Pool.OnlyLive s) : PoolReady s.pool := by
  have holds : Pool.PoolInv machine regions s ∧ machine.numPages < 0x80000 :=
    System.ReachableWhen.invariant
      (I := fun s => Pool.PoolInv machine regions s ∧ machine.numPages < 0x80000)
      (fun _ boot => ⟨Pool.poolInv_boot inside boot, Pool.booted_below low boot⟩)
      (fun _ _ _ inv allowed taken => ⟨Pool.poolInv_step inv.1 allowed taken, inv.2⟩) reached
  obtain ⟨inv, below⟩ := holds
  exact ⟨inv.positive, inv.static, inv.size ▸ Nat.le_of_lt below⟩

/-! ## Failed mounts -/

/-- **Failed mounts release everything.**  Whatever the disk is and answers, and whichever
semaphores and pages are in use: when no driver accepts the disk, and when the mount fails for any
reason, the semaphores in use and the free pages are those from before the call. -/
theorem mounts_release (thread : Nat) (volumename : Option Name) (s : Mounter σ) (ready : s.Ready) :
    ((filesystemsTryAll thread).Keeps s fun fs t => fs = none → Released s t) ∧
      (vfsMountFs thread volumename).Keeps s fun ret t => ret ≠ VFS_OK → Released s t := by
  refine ⟨?_, ?_⟩
  · refine (filesystemsTryAll_careful thread _ _ _ s ready.holding).mono fun fs t tried => ?_
    rintro rfl
    exact Holding.released tried
  · refine (vfsMountFs_holding thread volumename ready.holding).mono fun ret t holding => ?_
    exact fun failed => (holding failed).released

/-- No semaphore is in use, 21 of 40 pages are free, and the disk has a TFS header without a name. -/
def nameless : Mounter Unit where
  vfs := vfsInit fun _ => ()
  table :=
    { openSockets := fun _ =>
        { port := 0, protocol := 0, receiveComplete := none, rbuf := none, bufsize := 0
          sender := none, copied := none, sport := none }
      semaphoreTable := fun _ => { creator := -1, value := 0 }
      next := 0 }
  pool := pagepoolInit 40 19 (by decide)
  blockSize := 512
  disk :=
    { blocks := fun _ i => if i = 0 then TFS_MAGIC else 0, totalBlocks := 100,
      answers := fun _ => true, asked := 0, served := [] }

set_option maxRecDepth 20000 in
theorem mounts_release_nameless :
    ∃ t, vfsMountFs 0 none nameless = .returned (VFS_INVALID_PARAMS, t) ∧ Released nameless t := by
  have ready : nameless.Ready := ⟨by decide, ⟨by decide, by decide, by decide⟩⟩
  refine ⟨_, rfl, (mounts_release 0 none nameless ready).2 _ _ rfl (by decide)⟩

end Mounter

end Buenos.Fs
