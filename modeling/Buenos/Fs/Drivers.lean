/-
# Fs.Drivers -- TFS and FlatFS behind their function pointers

`tfs_init` and `flatfs_init` fill an `fs_t` with the functions of their driver.  `tfsOps`
and `flatfsOps` are these records, and `driverOps` is what the VFS sees of a mounted
filesystem whose driver it does not know.

With them every lock is accounted for (`locks_balanced`): what a call takes on its way
through the VFS and the driver it has given back when it returns.
-/
import Buenos.Fs.DriverLocks
import Buenos.Fs.VfsLocks

namespace Buenos.Fs

open Buenos.Lib Buenos.Theory Buenos.Theory.Prog

set_option autoImplicit false

/-- The `int` parameter that `x` is passed to. -/
def toCInt (x : Int) : CInt :=
  ⟨toInt32 x, by
    have low := Int.le_bmod (x := x) (m := 0x100000000) (by decide)
    have high := Int.bmod_lt (x := x) (m := 0x100000000) (by decide)
    simp only [toInt32]
    omega⟩

def tfsOps : FsOps Tfs where
  unmount := tfsUnmount
  openFile := tfsOpen
  close := tfsClose
  read fileid bufsize offset := tfsRead (toCInt fileid) (toCInt bufsize) (toCInt offset)
  write fileid bytes datasize offset :=
    tfsWrite (toCInt fileid) (fun k => bytes.getD k 0) (toCInt datasize) (toCInt offset)
  create filename size := tfsCreate filename (toCInt size)
  remove := tfsRemove
  getfree := tfsGetfree
  filecount := tfsFilecount
  file dirname idx := tfsFile dirname (toCInt idx)

def flatfsOps : FsOps Flat where
  unmount := flatfsUnmount
  openFile := flatfsOpen
  close := flatfsClose
  read fileid bufsize offset := flatfsRead (toCInt fileid) (toCInt bufsize) (toCInt offset)
  write fileid bytes datasize offset :=
    flatfsWrite (toCInt fileid) (fun k => bytes.getD k 0) (toCInt datasize) (toCInt offset)
  create filename size := flatfsCreate filename (toCInt size)
  remove := flatfsRemove
  getfree := flatfsGetfree
  filecount := flatfsFilecount
  file dirname idx := flatfsFile dirname (toCInt idx)

/-- What `fs->internal` points to, with the driver it belongs to. -/
inductive FsInternal where
  | tfs (volume : Tfs)
  | flatfs (volume : Flat)

namespace FsInternal

def lock : FsInternal → Int
  | .tfs volume => volume.lock
  | .flatfs volume => volume.lock

/-- The function of whichever driver it is. -/
def call {α : Type} (onTfs : Prog Tfs α) (onFlatfs : Prog Flat α) : Prog FsInternal α
  | .tfs volume =>
      match onTfs volume with
      | .returned (a, t) => .returned (a, .tfs t)
      | .stopped why => .stopped why
  | .flatfs volume =>
      match onFlatfs volume with
      | .returned (a, t) => .returned (a, .flatfs t)
      | .stopped why => .stopped why

theorem call_balanced {α : Type} {onTfs : Prog Tfs α} {onFlatfs : Prog Flat α}
    (tfs : Balanced Volume.lock onTfs) (flatfs : Balanced Volume.lock onFlatfs) :
    Balanced FsInternal.lock (call onTfs onFlatfs) := by
  apply balanced_of_same
  intro s a t ran
  cases s with
  | tfs volume =>
      cases inner : onTfs volume with
      | stopped why => simp [call, inner] at ran
      | returned pair =>
          simp only [call, inner] at ran
          cases ran
          exact tfs.same _ _ _ inner
  | flatfs volume =>
      cases inner : onFlatfs volume with
      | stopped why => simp [call, inner] at ran
      | returned pair =>
          simp only [call, inner] at ran
          cases ran
          exact flatfs.same _ _ _ inner

end FsInternal

def driverOps : FsOps FsInternal where
  unmount := FsInternal.call tfsOps.unmount flatfsOps.unmount
  openFile name := FsInternal.call (tfsOps.openFile name) (flatfsOps.openFile name)
  close fileid := FsInternal.call (tfsOps.close fileid) (flatfsOps.close fileid)
  read fileid bufsize offset :=
    FsInternal.call (tfsOps.read fileid bufsize offset) (flatfsOps.read fileid bufsize offset)
  write fileid bytes datasize offset :=
    FsInternal.call (tfsOps.write fileid bytes datasize offset)
      (flatfsOps.write fileid bytes datasize offset)
  create name size := FsInternal.call (tfsOps.create name size) (flatfsOps.create name size)
  remove name := FsInternal.call (tfsOps.remove name) (flatfsOps.remove name)
  getfree := FsInternal.call tfsOps.getfree flatfsOps.getfree
  filecount name := FsInternal.call (tfsOps.filecount name) (flatfsOps.filecount name)
  file name idx := FsInternal.call (tfsOps.file name idx) (flatfsOps.file name idx)

/-! ## Locks -/

theorem tfsOps_balanced : tfsOps.Balanced Volume.lock where
  openFile filename := tfsOpen_balanced filename
  close _ := .pure rfl
  read fileid bufsize offset := tfsRead_balanced (toCInt fileid) (toCInt bufsize) (toCInt offset)
  write fileid bytes datasize offset :=
    tfsWrite_balanced (toCInt fileid) (fun k => bytes.getD k 0) (toCInt datasize) (toCInt offset)
  create filename size := tfsCreate_balanced filename (toCInt size)
  remove filename := tfsRemove_balanced filename
  getfree := tfsGetfree_balanced
  filecount dirname := tfsFilecount_balanced dirname
  file dirname idx := tfsFile_balanced dirname (toCInt idx)

theorem flatfsOps_balanced : flatfsOps.Balanced Volume.lock where
  openFile filename := flatfsOpen_balanced filename
  close _ := .pure rfl
  read fileid bufsize offset :=
    flatfsRead_balanced (toCInt fileid) (toCInt bufsize) (toCInt offset)
  write fileid bytes datasize offset :=
    flatfsWrite_balanced (toCInt fileid) (fun k => bytes.getD k 0) (toCInt datasize)
      (toCInt offset)
  create filename size := flatfsCreate_balanced filename (toCInt size)
  remove filename := flatfsRemove_balanced filename
  getfree := flatfsGetfree_balanced
  filecount dirname := flatfsFilecount_balanced dirname
  file dirname idx := flatfsFile_balanced dirname (toCInt idx)

theorem driverOps_balanced : driverOps.Balanced FsInternal.lock := by
  have tfs := tfsOps_balanced
  have flatfs := flatfsOps_balanced
  constructor
  · intro name
    exact FsInternal.call_balanced (tfs.openFile name) (flatfs.openFile name)
  · intro fileid
    exact FsInternal.call_balanced (tfs.close fileid) (flatfs.close fileid)
  · intro fileid size offset
    exact FsInternal.call_balanced (tfs.read fileid size offset) (flatfs.read fileid size offset)
  · intro fileid bytes size offset
    exact FsInternal.call_balanced (tfs.write fileid bytes size offset)
      (flatfs.write fileid bytes size offset)
  · intro name size
    exact FsInternal.call_balanced (tfs.create name size) (flatfs.create name size)
  · intro name
    exact FsInternal.call_balanced (tfs.remove name) (flatfs.remove name)
  · exact FsInternal.call_balanced tfs.getfree flatfs.getfree
  · intro name
    exact FsInternal.call_balanced (tfs.filecount name) (flatfs.filecount name)
  · intro name idx
    exact FsInternal.call_balanced (tfs.file name idx) (flatfs.file name idx)

/-- A function of a driver; the last two are not called by the VFS. -/
inductive FsCall where
  | call (c : DriverCall)
  | mkdir (dirname : Name)
  | rmdir (dirname : Name)
  deriving DecidableEq

def FsCall.tfs : FsCall → Prog Tfs Reply
  | .call c => tfsOps.perform c
  | .mkdir dirname => tfsMkdir dirname >>= fun ret => pure ⟨ret, [], []⟩
  | .rmdir dirname => tfsRmdir dirname >>= fun ret => pure ⟨ret, [], []⟩

def FsCall.flatfs : FsCall → Prog Flat Reply
  | .call c => flatfsOps.perform c
  | .mkdir dirname => flatfsMkdir dirname >>= fun ret => pure ⟨ret, [], []⟩
  | .rmdir dirname => flatfsRmdir dirname >>= fun ret => pure ⟨ret, [], []⟩

theorem perform_balanced {σ : Type} {lock : σ → Int} {ops : FsOps σ}
    (balanced : ops.Balanced lock) {c : DriverCall} (mounted : c ≠ .unmount) :
    Balanced lock (ops.perform c) := by
  cases c with
  | unmount => exact absurd rfl mounted
  | openFile filename => exact .map (balanced.openFile filename)
  | close fileid => exact .map (balanced.close fileid)
  | read fileid bufsize offset => exact .map (balanced.read fileid bufsize offset)
  | write fileid bytes datasize offset => exact .map (balanced.write fileid bytes datasize offset)
  | create filename size => exact .map (balanced.create filename size)
  | remove filename => exact .map (balanced.remove filename)
  | getfree => exact .map balanced.getfree
  | filecount dirname => exact .map (balanced.filecount dirname)
  | file dirname idx => exact .map (balanced.file dirname idx)

theorem fsCall_balanced {c : FsCall} (mounted : c ≠ .call .unmount) :
    Balanced Volume.lock c.tfs ∧ Balanced Volume.lock c.flatfs := by
  cases c with
  | call c =>
      have other : c ≠ .unmount := fun same => mounted (by rw [same])
      exact ⟨perform_balanced tfsOps_balanced other, perform_balanced flatfsOps_balanced other⟩
  | mkdir dirname => exact ⟨.pure rfl, .pure rfl⟩
  | rmdir dirname => exact ⟨.pure rfl, .pure rfl⟩

/-- The call that returned `ret` has unmounted `fs`. -/
def VfsCall.Unmounted {σ : Type} (c : VfsCall) (s : Vfs σ) (ret : Int) (fs : Nat) : Prop :=
  ∃ name, c = .unmount name ∧ ret = VFS_OK ∧ vfsGetFilesystem s name = some fs

/-- A call leaves the lock of every filesystem alone that it does not unmount. -/
theorem prog_locks {c : VfsCall} (inService : c ≠ .deinit) (s : Vfs FsInternal) :
    (c.prog driverOps).Keeps s fun ret t => ∀ fs, ¬c.Unmounted s ret fs →
      (t.internal fs).lock = (s.internal fs).lock := by
  intro ret t ran fs still
  by_cases unmounts : ∃ name, c = .unmount name
  · obtain ⟨name, rfl⟩ := unmounts
    rcases vfsUnmount_internal driverOps name s ret t ran fs with same | ⟨ok, volume⟩
    · rw [same]
    · exact absurd ⟨name, rfl, ok, volume⟩ still
  · have balanced := prog_balanced driverOps_balanced (c := c)
      (fun name same => unmounts ⟨name, same⟩) inService
    have counts := balanced.same s ret t ran
    simp only [Vfs.counts, Prod.mk.injEq] at counts
    exact congrFun counts.2.2.2.2 fs

/-- **Locks and counters are balanced on every path.**  A function of TFS or FlatFS that
returns has given the lock of its volume back, unless it is the unmount.  A call of the VFS
that returns has given back both tables' locks and the operation it started, over any
driver, and the locks of the filesystems it did not unmount. -/
theorem locks_balanced :
    (∀ c : FsCall, c ≠ .call .unmount →
      (∀ s, c.tfs.Keeps s fun _ t => t.lock = s.lock) ∧
        ∀ s, c.flatfs.Keeps s fun _ t => t.lock = s.lock) ∧
    (∀ {σ : Type} (ops : FsOps σ) (c : VfsCall) (s : Vfs σ), (c.prog ops).Keeps s fun _ t =>
      t.vfsTableSem = s.vfsTableSem ∧ t.openfileTableSem = s.openfileTableSem ∧
        t.vfsOps = s.vfsOps) ∧
    ∀ c : VfsCall, c ≠ .deinit → ∀ s, (c.prog driverOps).Keeps s fun ret t =>
      ∀ fs, ¬c.Unmounted s ret fs → (t.internal fs).lock = (s.internal fs).lock := by
  refine ⟨fun c mounted => ?_, fun ops c s ret t ran => ?_, fun c inService s => ?_⟩
  · obtain ⟨tfs, flatfs⟩ := fsCall_balanced mounted
    exact ⟨tfs.same, flatfs.same⟩
  · have counts := (tables_balanced ops c).same s ret t ran
    simp only [Vfs.counts, Prod.mk.injEq] at counts
    exact ⟨counts.1, counts.2.1, counts.2.2.2.1⟩
  · exact prog_locks inService s

/-- A volume on a disk that refuses every request. -/
def refusing : Tfs where
  disk :=
    { blocks := fun _ => zeroblock
      totalBlocks := 4
      answers := fun _ => false
      asked := 0
      served := [] }
  totalblocks := 4
  lock := 1
  buffer := fun _ => zeroblock
  refused := 0

/-- An open that fails on its first request gives the lock back. -/
theorem locks_balanced_refusing :
    ∃ t, tfsOps.perform (.openFile []) refusing = .returned (⟨VFS_ERROR, [], []⟩, t) ∧
      t.lock = refusing.lock :=
  ⟨_, rfl, (locks_balanced.1 (.call (.openFile [])) (by decide)).1 refusing _ _ rfl⟩

end Buenos.Fs
