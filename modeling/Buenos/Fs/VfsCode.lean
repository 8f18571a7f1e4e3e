/-
# Fs.VfsCode -- the VFS entry points, instruction by instruction

The functions of fs/vfs.c as `Code`: every `semaphore_P`, `semaphore_V`, write to the
tables, assertion and driver call is an instruction of its own, so that other threads can
run between any two of them.  A scan of a table is one read, since it is made under the
table's lock.  `vfsCode_run` says that each of them, executed alone, is the function of the
same name in `Fs.Vfs`.
-/
import Buenos.Fs.Vfs
import Buenos.Theory.Threads

namespace Buenos.Fs

open Buenos.Lib Buenos.Theory

set_option autoImplicit false

/-- The function pointers of an `fs_t`, with the arguments of a call. -/
inductive DriverCall where
  | unmount
  | openFile (filename : Name)
  | close (fileid : Int)
  | read (fileid bufsize offset : Int)
  | write (fileid : Int) (bytes : List Byte) (datasize offset : Int)
  | create (filename : Name) (size : Int)
  | remove (filename : Name)
  | getfree
  | filecount (dirname : Name)
  | file (dirname : Name) (idx : Int)
  deriving DecidableEq

/-- What a driver function returns, and what it leaves in the caller's buffer. -/
structure Reply where
  ret : Int
  data : List Byte
  name : Name

/-- Writes to the variables of fs/vfs.c. -/
inductive VfsWrite where
  | opStarted
  | opEnded
  | unusable
  | mounted (row fs : Nat) (name : Name)
  | unmounted (row : Nat)
  | reserved (file fs : Nat)
  | released (file : Nat)
  | opened (file : Nat) (fileid : Int)
  | seeked (row : Nat) (seekPosition : Int)
  | advanced (row : Nat) (ret : Int)
  deriving DecidableEq

/-- The assertions; `condition` is one on local values. -/
inductive VfsCheck where
  | opsNonneg
  | opsZero
  | openFile (file : Int)
  | condition (c : Bool)
  deriving DecidableEq

variable {σ : Type}

/-- The first open file of a filesystem. -/
def openOn (fs : Nat) (s : Vfs σ) : Option Nat :=
  (List.range CONFIG_MAX_OPEN_FILES).find? fun i => (s.files i).filesystem = some fs

/-- The first row without a filesystem. -/
def freeMount (s : Vfs σ) : Option Nat :=
  (List.range CONFIG_MAX_FILESYSTEMS).find? fun row => (s.filesystems row).filesystem = none

theorem freeMount_some {s : Vfs σ} {row : Nat} (found : freeMount s = some row) :
    row < CONFIG_MAX_FILESYSTEMS ∧ (s.filesystems row).filesystem = none := by
  have member := List.mem_of_find?_eq_some found
  have free := List.find?_some found
  simp only [List.mem_range, decide_eq_true_eq] at member free
  exact ⟨member, free⟩

/-- The scan covers the whole table. -/
theorem openOn_none {s : Vfs σ} {fs : Nat} (unused : openOn fs s = none) {i : Nat}
    (bound : i < CONFIG_MAX_OPEN_FILES) : (s.files i).filesystem ≠ some fs := by
  have missed := List.find?_eq_none.1 unused i (List.mem_range.2 bound)
  simpa using missed

def VfsWrite.apply : VfsWrite → Vfs σ → Vfs σ
  | .opStarted, s => { s with vfsOps := s.vfsOps + 1 }
  | .opEnded, s => { s with vfsOps := s.vfsOps - 1 }
  | .unusable, s => { s with vfsUsable := false }
  | .mounted row fs name, s => s.setFilesystem row { filesystem := some fs, mountpoint := name }
  | .unmounted row, s => s.setFilesystem row { s.filesystems row with filesystem := none }
  | .reserved file fs, s => s.setFile file { s.files file with filesystem := some fs }
  | .released file, s => s.setFile file { s.files file with filesystem := none }
  | .opened file fileid, s =>
      s.setFile file { s.files file with fileid := fileid, seekPosition := 0 }
  | .seeked row seekPosition, s =>
      s.setFile row { s.files row with seekPosition := seekPosition }
  | .advanced row ret, s =>
      s.setFile row
        { s.files row with seekPosition := toInt32 ((s.files row).seekPosition + ret) }

def vfsShared : Shared (Vfs σ) VfsSem VfsWrite VfsCheck where
  value := Vfs.sem
  add := Vfs.addSem
  apply := VfsWrite.apply
  holds
    | .opsNonneg, s => 0 ≤ s.vfsOps
    | .opsZero, s => s.vfsOps == 0
    | .openFile file, s => (openRow s file).isSome
    | .condition c, _ => c

abbrev VfsCode (σ α : Type) : Type :=
  Code (Vfs σ) VfsSem VfsWrite VfsCheck (Nat × DriverCall) Reply α

namespace VfsCode

/-- Call a driver function and take what it returns. -/
def driver (fs : Nat) (c : DriverCall) : VfsCode σ Int := do
  let reply ← Code.ask (fs, c)
  pure reply.ret

/-- A NULL pointer is dereferenced: an exception in the kernel. -/
def crash : VfsCode σ Int := do
  Code.assert (.condition false)
  pure 0

def vfsStartOp : VfsCode σ Int := do
  Code.semP .vfsOp
  let usable ← Code.gets fun s => s.vfsUsable
  if usable then do
    Code.set .opStarted
    Code.semV .vfsOp
    pure VFS_OK
  else do
    Code.semV .vfsOp
    pure VFS_UNUSABLE

def vfsEndOp : VfsCode σ Unit := do
  Code.semP .vfsOp
  Code.set .opEnded
  Code.assert .opsNonneg
  let wake ← Code.gets fun s => !s.vfsUsable && s.vfsOps == 0
  if wake then do
    Code.semV .vfsUnmount
    Code.semV .vfsOp
  else Code.semV .vfsOp

/-- Leave an operation with a result. -/
def leave {α : Type} (result : α) : VfsCode σ α := do
  vfsEndOp
  pure result

def unmountRows : List Nat → VfsCode σ Unit
  | [] => pure ()
  | row :: rows => do
      let fs ← Code.gets fun s => (s.filesystems row).filesystem
      match fs with
      | none => unmountRows rows
      | some fs => do
          let _ ← driver fs .unmount
          Code.set (.unmounted row)
          unmountRows rows

def vfsDeinit : VfsCode σ Unit := do
  Code.semP .vfsOp
  Code.set .unusable
  let pending ← Code.gets fun s => decide (0 < s.vfsOps)
  if pending then do
    Code.semV .vfsOp
    Code.semP .vfsUnmount
    Code.semP .vfsOp
    Code.assert .opsZero
  else pure ()
  Code.semP .vfsTable
  Code.semP .openfileTable
  unmountRows (List.range CONFIG_MAX_FILESYSTEMS)
  Code.semV .openfileTable
  Code.semV .vfsTable
  Code.semV .vfsOp

def vfsMount (fs : Nat) (name : Name) : VfsCode σ Int := do
  Code.assert (.condition (name ≠ []))
  let started ← vfsStartOp
  if started ≠ VFS_OK then pure VFS_UNUSABLE
  else do
    Code.semP .vfsTable
    let free ← Code.gets freeMount
    match free with
    | none => do
        Code.semV .vfsTable
        leave VFS_LIMIT
    | some row => do
        let known ← Code.gets fun s => findMountpoint s name
        match known with
        | some _ => do
            Code.semV .vfsTable
            leave VFS_ERROR
        | none => do
            Code.set (.mounted row fs (stringcopy name VFS_NAME_LENGTH))
            Code.semV .vfsTable
            leave VFS_OK

def vfsUnmount (name : Name) : VfsCode σ Int := do
  let started ← vfsStartOp
  if started ≠ VFS_OK then pure VFS_UNUSABLE
  else do
    Code.semP .vfsTable
    let found ← Code.gets fun s =>
      (findMountpoint s name).bind fun row =>
        (s.filesystems row).filesystem.map fun fs => (row, fs)
    match found with
    | none => do
        Code.semV .vfsTable
        leave VFS_NOT_FOUND
    | some (row, fs) => do
        Code.semP .openfileTable
        let inUse ← Code.gets (openOn fs)
        match inUse with
        | some _ => do
            Code.semV .openfileTable
            Code.semV .vfsTable
            leave VFS_IN_USE
        | none => do
            let _ ← driver fs .unmount
            Code.set (.unmounted row)
            Code.semV .openfileTable
            Code.semV .vfsTable
            leave VFS_OK

def vfsOpen (pathname : Name) : VfsCode σ Int := do
  let started ← vfsStartOp
  if started ≠ VFS_OK then pure VFS_UNUSABLE
  else match vfsParsePathname pathname with
  | none => leave VFS_ERROR
  | some (volumename, filename) => do
      Code.semP .vfsTable
      Code.semP .openfileTable
      let row ← Code.gets freeRow
      match row with
      | none => do
          Code.semV .openfileTable
          Code.semV .vfsTable
          leave VFS_LIMIT
      | some file => do
          let fs ← Code.gets fun s => vfsGetFilesystem s volumename
          match fs with
          | none => do
              Code.semV .openfileTable
              Code.semV .vfsTable
              leave VFS_NO_SUCH_FS
          | some fs => do
              Code.set (.reserved file fs)
              Code.semV .openfileTable
              Code.semV .vfsTable
              let fileid ← driver fs (.openFile filename)
              if fileid < 0 then do
                Code.semP .openfileTable
                Code.set (.released file)
                Code.semV .openfileTable
                leave fileid
              else do
                Code.set (.opened file fileid)
                leave (file : Int)

/-- The row of the open-file table, once it is verified that the file is open. -/
def vfsVerifyOpen (file : Int) : VfsCode σ Nat := do
  Code.assert (.openFile file)
  pure file.toNat

def vfsClose (file : Int) : VfsCode σ Int := do
  let started ← vfsStartOp
  if started ≠ VFS_OK then pure VFS_UNUSABLE
  else do
    Code.semP .openfileTable
    let row ← vfsVerifyOpen file
    let entry ← Code.gets fun s => s.files row
    match entry.filesystem with
    | none => crash
    | some fs => do
        let ret ← driver fs (.close entry.fileid)
        Code.set (.released row)
        Code.semV .openfileTable
        leave ret

def vfsSeek (file seekPosition : Int) : VfsCode σ Int := do
  let started ← vfsStartOp
  if started ≠ VFS_OK then pure VFS_UNUSABLE
  else do
    Code.assert (.condition (0 ≤ seekPosition))
    Code.semP .openfileTable
    let row ← vfsVerifyOpen file
    Code.set (.seeked row seekPosition)
    Code.semV .openfileTable
    leave VFS_OK

/-- Advance the seek position after a transfer of `ret` bytes. -/
def advance (row : Nat) (ret : Int) : VfsCode σ Unit :=
  if 0 < ret then do
    Code.semP .openfileTable
    Code.set (.advanced row ret)
    Code.semV .openfileTable
  else pure ()

/-- `vfs_read`, as far as its return value goes. -/
def vfsRead (file : Int) (buffer : Bool) (bufsize : Int) : VfsCode σ Int := do
  let started ← vfsStartOp
  if started ≠ VFS_OK then pure VFS_UNUSABLE
  else do
    let row ← vfsVerifyOpen file
    let entry ← Code.gets fun s => s.files row
    Code.assert (.condition (0 ≤ bufsize && buffer))
    match entry.filesystem with
    | none => crash
    | some fs => do
        let ret ← driver fs (.read entry.fileid bufsize entry.seekPosition)
        advance row ret
        leave ret

def vfsWrite (file : Int) (buffer : Option (List Byte)) (datasize : Int) : VfsCode σ Int := do
  let started ← vfsStartOp
  if started ≠ VFS_OK then pure VFS_UNUSABLE
  else do
    let row ← vfsVerifyOpen file
    let entry ← Code.gets fun s => s.files row
    Code.assert (.condition (0 ≤ datasize && buffer.isSome))
    match entry.filesystem, buffer with
    | some fs, some bytes => do
        let ret ← driver fs (.write entry.fileid bytes datasize entry.seekPosition)
        advance row ret
        leave ret
    | _, _ => crash

/-- An operation on the volume that a name selects, made with the mount table locked. -/
def onVolume (volumename : Name) (c : DriverCall) : VfsCode σ Int := do
  Code.semP .vfsTable
  let fs ← Code.gets fun s => vfsGetFilesystem s volumename
  match fs with
  | none => do
      Code.semV .vfsTable
      leave VFS_NO_SUCH_FS
  | some fs => do
      let ret ← driver fs c
      Code.semV .vfsTable
      leave ret

/-- An operation on a path: parse it, then call the driver with the file part. -/
def onPath (pathname : Name) (c : Name → DriverCall) : VfsCode σ Int := do
  let started ← vfsStartOp
  if started ≠ VFS_OK then pure VFS_UNUSABLE
  else match vfsParsePathname pathname with
  | none => leave VFS_ERROR
  | some (volumename, filename) => onVolume volumename (c filename)

def vfsCreate (pathname : Name) (size : Int) : VfsCode σ Int := do
  Code.assert (.condition (0 ≤ size))
  onPath pathname fun filename => .create filename size

def vfsRemove (pathname : Name) : VfsCode σ Int := onPath pathname .remove

def vfsGetfree (filesystem : Name) : VfsCode σ Int := do
  let started ← vfsStartOp
  if started ≠ VFS_OK then pure VFS_UNUSABLE
  else onVolume filesystem .getfree

def vfsFilecount (pathname : Name) : VfsCode σ Int := onPath pathname .filecount

def vfsFile (pathname : Name) (idx : Int) : VfsCode σ Int :=
  onPath pathname fun dirname => .file dirname idx

end VfsCode

/-! ## The entry points -/

/-- A call of the VFS with its arguments. -/
inductive VfsCall where
  | mount (fs : Nat) (name : Name)
  | unmount (name : Name)
  | openFile (pathname : Name)
  | close (openfile : Int)
  | seek (openfile seekPosition : Int)
  | read (openfile : Int) (buffer : Bool) (bufsize : Int)
  | write (openfile : Int) (buffer : Option (List Byte)) (datasize : Int)
  | create (pathname : Name) (size : Int)
  | remove (pathname : Name)
  | getfree (filesystem : Name)
  | filecount (pathname : Name)
  | file (pathname : Name) (idx : Int)
  | deinit
  deriving DecidableEq

/-- `vfs_deinit` returns nothing; here it returns zero. -/
def VfsCall.code : VfsCall → VfsCode σ Int
  | .mount fs name => VfsCode.vfsMount fs name
  | .unmount name => VfsCode.vfsUnmount name
  | .openFile pathname => VfsCode.vfsOpen pathname
  | .close openfile => VfsCode.vfsClose openfile
  | .seek openfile seekPosition => VfsCode.vfsSeek openfile seekPosition
  | .read openfile buffer bufsize => VfsCode.vfsRead openfile buffer bufsize
  | .write openfile buffer datasize => VfsCode.vfsWrite openfile buffer datasize
  | .create pathname size => VfsCode.vfsCreate pathname size
  | .remove pathname => VfsCode.vfsRemove pathname
  | .getfree filesystem => VfsCode.vfsGetfree filesystem
  | .filecount pathname => VfsCode.vfsFilecount pathname
  | .file pathname idx => VfsCode.vfsFile pathname idx
  | .deinit => do
      VfsCode.vfsDeinit
      pure 0

/-! ## Executed alone -/

/-- The driver behind the function pointers. -/
def FsOps.perform (ops : FsOps σ) : DriverCall → Prog σ Reply
  | .unmount => ops.unmount >>= fun ret => pure ⟨ret, [], []⟩
  | .openFile filename => ops.openFile filename >>= fun ret => pure ⟨ret, [], []⟩
  | .close fileid => ops.close fileid >>= fun ret => pure ⟨ret, [], []⟩
  | .read fileid bufsize offset =>
      ops.read fileid bufsize offset >>= fun ret => pure ⟨ret.1, ret.2, []⟩
  | .write fileid bytes datasize offset =>
      ops.write fileid bytes datasize offset >>= fun ret => pure ⟨ret, [], []⟩
  | .create filename size => ops.create filename size >>= fun ret => pure ⟨ret, [], []⟩
  | .remove filename => ops.remove filename >>= fun ret => pure ⟨ret, [], []⟩
  | .getfree => ops.getfree >>= fun ret => pure ⟨ret, [], []⟩
  | .filecount dirname => ops.filecount dirname >>= fun ret => pure ⟨ret, [], []⟩
  | .file dirname idx => ops.file dirname idx >>= fun ret => pure ⟨ret.1, [], ret.2⟩

/-- Execute code with no other thread, over a driver. -/
def VfsCode.alone {α : Type} (ops : FsOps σ) (c : VfsCode σ α) : Prog (Vfs σ) α :=
  c.run vfsShared fun request => onFs request.1 (ops.perform request.2)

namespace VfsCode

variable (ops : FsOps σ)

@[simp] theorem alone_bind {α β : Type} (c : VfsCode σ α) (f : α → VfsCode σ β) :
    alone ops (c >>= f) = alone ops c >>= fun a => alone ops (f a) := Code.run_bind c f

@[simp] theorem alone_pure {α : Type} (a : α) :
    alone ops (pure a : VfsCode σ α) = (pure a : Prog (Vfs σ) α) := rfl

@[simp] theorem alone_gets {α : Type} (f : Vfs σ → α) :
    alone ops (Code.gets f) = Prog.gets f := rfl

@[simp] theorem alone_semP (k : VfsSem) : alone ops (Code.semP k) = semaphoreP k :=
  Code.run_semP k

@[simp] theorem alone_semV (k : VfsSem) : alone ops (Code.semV k) = semaphoreV k := rfl

@[simp] theorem alone_set (w : VfsWrite) : alone ops (Code.set w) = Prog.modify w.apply := rfl

@[simp] theorem alone_assert (l : VfsCheck) :
    alone ops (Code.assert l) = Prog.assert (vfsShared.holds l) .assertion := Code.run_assert l

@[simp] theorem alone_ite {α : Type} (p : Prop) [Decidable p] (c d : VfsCode σ α) :
    alone ops (if p then c else d) = if p then alone ops c else alone ops d := Code.run_ite p c d

theorem alone_driver (fs : Nat) (c : DriverCall) :
    alone ops (driver fs c) = onFs fs (ops.perform c) >>= fun reply => pure reply.ret := by
  rw [driver, alone_bind]
  congr 1
  exact Code.run_ask _

theorem alone_vfsStartOp : alone ops vfsStartOp = Fs.vfsStartOp := by
  simp only [vfsStartOp, Fs.vfsStartOp, alone_bind, alone_semP, alone_gets, alone_ite, alone_set,
    alone_semV, alone_pure]
  rfl

theorem alone_vfsEndOp : alone ops vfsEndOp = Fs.vfsEndOp := by
  simp only [vfsEndOp, Fs.vfsEndOp, alone_bind, alone_semP, alone_gets, alone_ite, alone_set,
    alone_semV, alone_assert]
  rfl

@[simp] theorem alone_leave {α : Type} (result : α) : alone ops (leave result) = Fs.leave result := by
  rw [leave, alone_bind, alone_vfsEndOp]
  rfl

theorem onFs_ret {α : Type} (fs : Nat) (m : Prog σ α) (f : α → Reply) :
    (onFs fs (m >>= fun a => pure (f a)) >>= fun reply => pure reply.ret) =
      onFs fs m >>= fun a => pure (f a).ret := by
  funext s
  simp only [Prog.bind_apply, onFs, Prog.zoom]
  cases m (s.internal fs) <;> rfl

theorem leave_map {α β : Type} (result : α) (f : α → β) :
    (Fs.leave result >>= fun a => pure (f a) : Prog (Vfs σ) β) = Fs.leave (f result) := by
  rw [Fs.leave, Prog.bind_assoc]
  rfl

theorem alone_vfsMount (fs : Nat) (name : Name) :
    alone ops (vfsMount fs name) = Fs.vfsMount fs name := by
  rw [vfsMount, Fs.vfsMount, alone_bind, alone_assert]
  refine Prog.bind_congr fun _ => ?_
  rw [alone_bind, alone_vfsStartOp]
  refine Prog.bind_congr fun started => ?_
  rw [alone_ite, alone_bind, alone_semP]
  congr 1
  refine Prog.bind_congr fun _ => ?_
  rw [alone_bind, alone_gets]
  refine Prog.bind_congr fun free => ?_
  cases free with
  | none => simp only [alone_bind, alone_semV, alone_leave]
  | some row =>
      simp only [alone_bind, alone_gets]
      refine Prog.bind_congr fun known => ?_
      cases known with
      | none =>
          simp only [alone_bind, alone_set, alone_semV, alone_leave]
          rfl
      | some other => simp only [alone_bind, alone_semV, alone_leave]

theorem alone_unmountRows (rows : List Nat) :
    alone ops (unmountRows rows) = Fs.unmountRows ops rows := by
  induction rows with
  | nil => rfl
  | cons row rows ih =>
      rw [unmountRows, Fs.unmountRows, alone_bind, alone_gets]
      refine Prog.bind_congr fun fs => ?_
      cases fs with
      | none => exact ih
      | some fs =>
          simp only [alone_bind, alone_driver, FsOps.perform, onFs_ret, alone_set, ih,
            Prog.bind_pure]
          rfl

theorem alone_vfsDeinit : alone ops vfsDeinit = Fs.vfsDeinit ops := by
  simp only [vfsDeinit, Fs.vfsDeinit, alone_bind, alone_semP, alone_set, alone_gets, alone_ite,
    alone_semV, alone_assert, alone_unmountRows]
  rfl

theorem alone_vfsUnmount (name : Name) :
    alone ops (vfsUnmount name) = Fs.vfsUnmount ops name := by
  rw [vfsUnmount, Fs.vfsUnmount, alone_bind, alone_vfsStartOp]
  refine Prog.bind_congr fun started => ?_
  rw [alone_ite, alone_bind, alone_semP]
  congr 1
  refine Prog.bind_congr fun _ => ?_
  rw [alone_bind, alone_gets]
  funext s
  rw [Prog.bind_gets_apply, Prog.bind_gets_apply, Prog.bind_gets_apply, vfsGetFilesystem]
  cases findMountpoint s name with
  | none => simp only [Option.bind_none, alone_bind, alone_semV, alone_leave]
  | some row =>
      simp only [Option.bind_some]
      cases (s.filesystems row).filesystem with
      | none => simp only [Option.map_none, alone_bind, alone_semV, alone_leave]
      | some fs =>
          simp only [Option.map_some, alone_bind, alone_semP, alone_gets]
          unfold openOn
          refine congrFun (Prog.bind_congr fun _ => Prog.bind_congr fun inUse => ?_) s
          cases inUse with
          | some i => simp only [alone_bind, alone_semV, alone_leave]
          | none =>
              simp only [alone_bind, alone_driver, FsOps.perform, onFs_ret, alone_set, alone_semV,
                alone_leave, Prog.bind_pure]
              rfl

theorem alone_vfsOpen (pathname : Name) :
    alone ops (vfsOpen pathname) = Fs.vfsOpen ops pathname := by
  rw [vfsOpen, Fs.vfsOpen, alone_bind, alone_vfsStartOp]
  refine Prog.bind_congr fun started => ?_
  rw [alone_ite]
  congr 1
  cases vfsParsePathname pathname with
  | none => simp only [alone_leave]
  | some names =>
      simp only [alone_bind, alone_semP, alone_gets]
      refine Prog.bind_congr fun _ => Prog.bind_congr fun _ => Prog.bind_congr fun row => ?_
      cases row with
      | none => simp only [alone_bind, alone_semV, alone_leave]
      | some file =>
          simp only [alone_bind, alone_gets]
          refine Prog.bind_congr fun fs => ?_
          cases fs with
          | none => simp only [alone_bind, alone_semV, alone_leave]
          | some fs =>
              simp only [alone_bind, alone_set, alone_semV, alone_driver, FsOps.perform, onFs_ret,
                Prog.bind_pure, alone_ite, alone_semP, alone_leave]
              rfl

/-- After the verification the row is that of the open file. -/
theorem alone_verified {β : Type} {file : Int} {f : Nat → VfsCode σ β}
    {k : Nat × Nat → Prog (Vfs σ) β} {s : Vfs σ}
    (same : ∀ row fs, openRow s file = some (row, fs) → alone ops (f row) s = k (row, fs) s) :
    (alone ops (vfsVerifyOpen file) >>= fun row => alone ops (f row)) s =
      (Fs.vfsVerifyOpen file >>= k) s := by
  rw [vfsVerifyOpen, alone_bind, alone_assert, alone_pure, Prog.bind_apply, Prog.bind_apply,
    Prog.bind_apply, Prog.assert_apply, Fs.vfsVerifyOpen]
  cases opened : openRow s file with
  | none =>
      simp only [vfsShared, opened]
      rfl
  | some r =>
      have row := (openRow_some opened).1
      simp only [vfsShared, opened, Option.isSome_some, if_true]
      rw [← same r.1 r.2 opened, row]
      rfl

theorem alone_vfsClose (file : Int) : alone ops (vfsClose file) = Fs.vfsClose ops file := by
  rw [vfsClose, Fs.vfsClose, alone_bind, alone_vfsStartOp]
  refine Prog.bind_congr fun started => ?_
  rw [alone_ite, alone_bind, alone_semP]
  congr 1
  refine Prog.bind_congr fun _ => ?_
  rw [alone_bind]
  funext s
  apply alone_verified
  intro row fs opened
  simp only [alone_bind, alone_gets, Prog.bind_gets_apply,
    (openRow_some opened).2.2]
  simp only [alone_driver, FsOps.perform, onFs_ret, alone_set, alone_semV, alone_leave,
    Prog.bind_pure]
  rfl

theorem alone_vfsSeek (file seekPosition : Int) :
    alone ops (vfsSeek file seekPosition) = Fs.vfsSeek file seekPosition := by
  rw [vfsSeek, Fs.vfsSeek, alone_bind, alone_vfsStartOp]
  refine Prog.bind_congr fun started => ?_
  rw [alone_ite, alone_bind, alone_assert]
  congr 1
  refine Prog.bind_congr fun _ => ?_
  rw [alone_bind, alone_semP]
  refine Prog.bind_congr fun _ => ?_
  rw [alone_bind]
  funext s
  apply alone_verified
  intro row fs opened
  simp only [alone_bind, alone_set, alone_semV, alone_leave]
  rfl

theorem alone_advance (row : Nat) (ret : Int) : alone ops (advance row ret) = Fs.advance row ret := by
  simp only [advance, Fs.advance, alone_ite, alone_bind, alone_semP, alone_set, alone_semV, alone_pure]
  rfl

/-- `vfsRead` of `Fs.Vfs` returns the bytes as well. -/
theorem alone_vfsRead (file : Int) (buffer : Bool) (bufsize : Int) :
    alone ops (vfsRead file buffer bufsize) =
      Fs.vfsRead ops file buffer bufsize >>= fun ret => pure ret.1 := by
  rw [vfsRead, Fs.vfsRead, alone_bind, alone_vfsStartOp, Prog.bind_assoc]
  refine Prog.bind_congr fun started => ?_
  rw [alone_ite]
  split
  · rfl
  rw [alone_bind]
  funext s
  rw [Prog.bind_assoc]
  apply alone_verified
  intro row fs opened
  simp only [alone_bind, alone_gets, alone_assert, Prog.bind_gets_apply, (openRow_some opened).2.2,
    Prog.bind_assoc]
  rw [Prog.bind_assert_apply, Prog.bind_assert_apply]
  congr 1
  rw [Prog.bind_gets_apply]
  simp only [alone_driver, FsOps.perform, onFs_ret, alone_advance, alone_leave, Prog.bind_assoc]
  refine congrFun (Prog.bind_congr fun ret => ?_) s
  simp only [Prog.pure_bind, leave_map]

theorem alone_vfsWrite (file : Int) (buffer : Option (List Byte)) (datasize : Int) :
    alone ops (vfsWrite file buffer datasize) = Fs.vfsWrite ops file buffer datasize := by
  rw [vfsWrite, Fs.vfsWrite, alone_bind, alone_vfsStartOp]
  refine Prog.bind_congr fun started => ?_
  rw [alone_ite, alone_bind]
  congr 1
  funext s
  apply alone_verified
  intro row fs opened
  cases buffer with
  | none =>
      simp only [alone_bind, alone_gets, alone_assert, Prog.bind_gets_apply]
      simp [Prog.bind_assert_apply, vfsShared]
  | some bytes =>
      simp only [alone_bind, alone_gets, alone_assert, Prog.bind_gets_apply,
        (openRow_some opened).2.2]
      rw [Prog.bind_assert_apply, Prog.bind_assert_apply]
      simp only [vfsShared, Option.isSome_some, Bool.and_true]
      congr 1
      rw [Prog.bind_gets_apply]
      simp only [alone_driver, FsOps.perform, onFs_ret, alone_advance, alone_leave, Prog.bind_pure]

section Paths

variable {α : Type} {reply : α → Reply} {failed : Int → α}

theorem alone_onVolume (same : ∀ code, (reply (failed code)).ret = code) (volumename : Name)
    {c : DriverCall} {m : Prog σ α} (performs : ops.perform c = m >>= fun a => pure (reply a)) :
    alone ops (onVolume volumename c) =
      Fs.onVolume volumename failed m >>= fun a => pure (reply a).ret := by
  rw [onVolume, Fs.onVolume, alone_bind, alone_semP, Prog.bind_assoc]
  refine Prog.bind_congr fun _ => ?_
  rw [alone_bind, alone_gets, Prog.bind_assoc]
  refine Prog.bind_congr fun fs => ?_
  cases fs with
  | none => simp only [alone_bind, alone_semV, alone_leave, Prog.bind_assoc, leave_map, same]
  | some fs =>
      simp only [alone_bind, alone_driver, performs, onFs_ret, alone_semV, alone_leave,
        Prog.bind_assoc, leave_map]
      rfl

theorem alone_onPath (same : ∀ code, (reply (failed code)).ret = code) (pathname : Name)
    {c : Name → DriverCall} {m : Name → Prog σ α}
    (performs : ∀ name, ops.perform (c name) = m name >>= fun a => pure (reply a)) :
    alone ops (onPath pathname c) =
      Fs.onPath pathname failed m >>= fun a => pure (reply a).ret := by
  rw [onPath, Fs.onPath, alone_bind, alone_vfsStartOp, Prog.bind_assoc]
  refine Prog.bind_congr fun started => ?_
  rw [alone_ite]
  split
  · rw [alone_pure]
    exact congrArg _ (same VFS_UNUSABLE).symm
  · cases vfsParsePathname pathname with
    | none => simp only [alone_leave, leave_map, same]
    | some names => exact alone_onVolume ops same names.1 (performs names.2)

/-- A driver function that returns a number and nothing else. -/
theorem alone_onPath_plain (pathname : Name) {c : Name → DriverCall} {m : Name → Prog σ Int}
    (performs : ∀ name, ops.perform (c name) = m name >>= fun ret => pure ⟨ret, [], []⟩) :
    alone ops (onPath pathname c) = Fs.onPath pathname id m := by
  have done : ∀ code : Int, (Reply.mk (id code) [] []).ret = code := fun _ => rfl
  rw [alone_onPath ops done pathname performs]
  exact Prog.bind_pure _

end Paths

end VfsCode

/-- The call as a function of `Fs.Vfs`, as far as its return value goes. -/
def VfsCall.prog (ops : FsOps σ) : VfsCall → Prog (Vfs σ) Int
  | .mount fs name => vfsMount fs name
  | .unmount name => vfsUnmount ops name
  | .openFile pathname => vfsOpen ops pathname
  | .close openfile => vfsClose ops openfile
  | .seek openfile seekPosition => vfsSeek openfile seekPosition
  | .read openfile buffer bufsize => vfsRead ops openfile buffer bufsize >>= fun ret => pure ret.1
  | .write openfile buffer datasize => vfsWrite ops openfile buffer datasize
  | .create pathname size => vfsCreate ops pathname size
  | .remove pathname => vfsRemove ops pathname
  | .getfree filesystem => vfsGetfree ops filesystem
  | .filecount pathname => vfsFilecount ops pathname
  | .file pathname idx => vfsFile ops pathname idx >>= fun ret => pure ret.1
  | .deinit => vfsDeinit ops >>= fun _ => pure 0

/-- **Executed alone, the code of a call is the call.** -/
theorem VfsCall.alone_code (ops : FsOps σ) (c : VfsCall) :
    VfsCode.alone ops c.code = c.prog ops := by
  cases c with
  | mount fs name => exact VfsCode.alone_vfsMount ops fs name
  | unmount name => exact VfsCode.alone_vfsUnmount ops name
  | openFile pathname => exact VfsCode.alone_vfsOpen ops pathname
  | close openfile => exact VfsCode.alone_vfsClose ops openfile
  | seek openfile seekPosition => exact VfsCode.alone_vfsSeek ops openfile seekPosition
  | read openfile buffer bufsize => exact VfsCode.alone_vfsRead ops openfile buffer bufsize
  | write openfile buffer datasize => exact VfsCode.alone_vfsWrite ops openfile buffer datasize
  | create pathname size =>
      rw [VfsCall.code, VfsCode.vfsCreate, VfsCode.alone_bind, VfsCode.alone_assert]
      refine Prog.bind_congr fun _ => ?_
      exact VfsCode.alone_onPath_plain ops pathname fun _ => rfl
  | remove pathname => exact VfsCode.alone_onPath_plain ops pathname fun _ => rfl
  | getfree filesystem =>
      have done : ∀ code : Int, (Reply.mk (id code) [] []).ret = code := fun _ => rfl
      rw [VfsCall.code, VfsCode.vfsGetfree, VfsCode.alone_bind, VfsCode.alone_vfsStartOp]
      refine Prog.bind_congr fun started => ?_
      rw [VfsCode.alone_ite, VfsCode.alone_onVolume ops done filesystem rfl]
      exact congrArg _ (Prog.bind_pure _)
  | filecount pathname => exact VfsCode.alone_onPath_plain ops pathname fun _ => rfl
  | file pathname idx =>
      let reply (ret : Int × Name) : Reply := ⟨ret.1, [], ret.2⟩
      have done : ∀ code, (reply (code, [])).ret = code := fun _ => rfl
      exact VfsCode.alone_onPath ops done pathname fun _ => rfl
  | deinit =>
      rw [VfsCall.code, VfsCode.alone_bind, VfsCode.alone_vfsDeinit]
      rfl

/-! ## Executed by many threads -/

abbrev VfsPool (σ : Type) : Type :=
  Pool (Vfs σ) VfsSem VfsWrite VfsCheck (Nat × DriverCall) Reply VfsCall

abbrev VfsTrace : Type := Trace VfsCall VfsWrite (Nat × DriverCall) Reply

/-- Any number of threads inside the VFS.  A driver function takes as long as it likes and
returns anything. -/
def vfsPool (internal : Nat → σ) : System (VfsPool σ) (Move VfsCall Reply) :=
  pool vfsShared VfsCall.code (vfsInit internal)

/-! ## Rules of a discipline -/

section Rules

variable {H α : Type} {o : VfsCall} {h h₁ h₂ : H}
  {D : Discipline (Vfs σ) VfsCheck VfsWrite (Nat × DriverCall) Reply VfsCall H}

/-- A driver call, and the code after its answer. -/
theorem safe_driver {Q : α → H → Prop} {r : Nat × DriverCall} {c : Int → VfsCode σ α}
    (inside : D.during o r h₁) (called : D.Moves o h h₁ (fun _ => True) id (some (.called r)))
    (answered : ∀ reply, D.Moves o h₁ h₂ (fun _ => True) id (some (.answered r reply)))
    (rest : ∀ ret, (c ret).Safe vfsShared D o Q h₂) :
    (VfsCode.driver r.1 r.2 >>= c).Safe vfsShared D o Q h := by
  refine Code.Safe.bind (Q := fun _ h' => h' = h₂) ?_ ?_
  · exact Code.Safe.ask inside called fun reply => ⟨h₂, answered reply, rfl⟩
  · rintro ret h' rfl
    exact rest ret

/-- The row of an open file; other descriptors stop the thread here. -/
theorem safe_verifyOpen {Q : α → H → Prop} {file : Int} {c : Nat → VfsCode σ α}
    (rest : (Code.assert (.openFile file) >>= fun _ => c file.toNat).Safe vfsShared D o Q h) :
    (VfsCode.vfsVerifyOpen file >>= c).Safe vfsShared D o Q h := rest

/-- After a crash there is nothing to keep. -/
theorem safe_crash {Q : Int → H → Prop} (unpromised : ¬D.must (.condition false))
    (done : Q 0 h₁) : (VfsCode.crash : VfsCode σ Int).Safe vfsShared D o Q h :=
  Code.Safe.assert (fun must => absurd must unpromised)
    (fun _ _ _ _ _ _ never => Bool.noConfusion never) done

end Rules

end Buenos.Fs
