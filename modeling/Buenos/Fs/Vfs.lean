/-
# Fs.Vfs -- the virtual filesystem

The mount table, the open-file table and the functions of fs/vfs.c over an
arbitrary driver.  An `fs_t` is a number that indexes the driver states in
`Vfs.internal`; its function pointers are an `FsOps`.  The binary semaphores are
counters: `semaphore_P` on a counter that is not positive would put the caller to
sleep, and a sequential call then does not return.
-/
import Buenos.Lib.Libc
import Buenos.Theory.Prog
import Mathlib.Logic.Function.Basic

namespace Buenos.Fs

open Buenos.Lib Buenos.Theory

set_option autoImplicit false

def VFS_OK : Int := 0
def VFS_NOT_SUPPORTED : Int := -1
def VFS_ERROR : Int := -2
def VFS_INVALID_PARAMS : Int := -3
def VFS_NOT_OPEN : Int := -4
def VFS_NOT_FOUND : Int := -5
def VFS_NO_SUCH_FS : Int := -6
def VFS_LIMIT : Int := -7
def VFS_IN_USE : Int := -8
def VFS_UNUSABLE : Int := -9

def VFS_NAME_LENGTH : Nat := 16

def CONFIG_MAX_FILESYSTEMS : Nat := 8
def CONFIG_MAX_OPEN_FILES : Nat := 512

/-- The value an `int` variable takes when `x` is stored in it. -/
def toInt32 (x : Int) : Int := Int.bmod x 0x100000000

theorem toInt32_eq {x : Int} (low : -0x80000000 ≤ x) (high : x < 0x80000000) : toInt32 x = x := by
  unfold toInt32 Int.bmod
  dsimp only
  split <;> omega

theorem toInt32_wrap {x : Int} (low : 0x80000000 ≤ x) (high : x < 0x180000000) :
    toInt32 x = x - 0x100000000 := by
  unfold toInt32 Int.bmod
  dsimp only
  split <;> omega

/-- The function pointers of an `fs_t` that the VFS calls, over the driver's own
state.  `read` returns the bytes it left in the caller's buffer, `file` the name. -/
structure FsOps (σ : Type) where
  unmount : Prog σ Int
  openFile : Name → Prog σ Int
  close : Int → Prog σ Int
  read : Int → Int → Int → Prog σ (Int × List Byte)
  write : Int → List Byte → Int → Int → Prog σ Int
  create : Name → Int → Prog σ Int
  remove : Name → Prog σ Int
  getfree : Prog σ Int
  filecount : Name → Prog σ Int
  file : Name → Int → Prog σ (Int × Name)

structure VfsEntry where
  filesystem : Option Nat
  mountpoint : Name
  deriving DecidableEq

structure OpenfileEntry where
  filesystem : Option Nat
  fileid : Int
  seekPosition : Int
  deriving DecidableEq

inductive VfsSem where
  | vfsTable
  | openfileTable
  | vfsOp
  | vfsUnmount
  deriving DecidableEq

structure Vfs (σ : Type) where
  filesystems : Nat → VfsEntry
  files : Nat → OpenfileEntry
  vfsTableSem : Int
  openfileTableSem : Int
  vfsOpSem : Int
  vfsUnmountSem : Int
  vfsOps : Int
  vfsUsable : Bool
  internal : Nat → σ

variable {σ : Type}

namespace Vfs

def sem (s : Vfs σ) : VfsSem → Int
  | .vfsTable => s.vfsTableSem
  | .openfileTable => s.openfileTableSem
  | .vfsOp => s.vfsOpSem
  | .vfsUnmount => s.vfsUnmountSem

def addSem (s : Vfs σ) (k : VfsSem) (d : Int) : Vfs σ :=
  match k with
  | .vfsTable => { s with vfsTableSem := s.vfsTableSem + d }
  | .openfileTable => { s with openfileTableSem := s.openfileTableSem + d }
  | .vfsOp => { s with vfsOpSem := s.vfsOpSem + d }
  | .vfsUnmount => { s with vfsUnmountSem := s.vfsUnmountSem + d }

def setFile (s : Vfs σ) (row : Nat) (entry : OpenfileEntry) : Vfs σ :=
  { s with files := Function.update s.files row entry }

def setFilesystem (s : Vfs σ) (row : Nat) (entry : VfsEntry) : Vfs σ :=
  { s with filesystems := Function.update s.filesystems row entry }

def setInternal (s : Vfs σ) (fs : Nat) (d : σ) : Vfs σ :=
  { s with internal := Function.update s.internal fs d }

end Vfs

def semaphoreP (k : VfsSem) : Prog (Vfs σ) Unit := fun s =>
  if 0 < s.sem k then .returned ((), s.addSem k (-1)) else .stopped .asleep

def semaphoreV (k : VfsSem) : Prog (Vfs σ) Unit := Prog.modify fun s => s.addSem k 1

/-- Run a driver function on the state behind `fs`. -/
def onFs {α : Type} (fs : Nat) (m : Prog σ α) : Prog (Vfs σ) α :=
  Prog.zoom (fun s => s.internal fs) (fun d s => s.setInternal fs d) m

/-- The tables as `vfs_init` leaves them; static memory is zero. -/
def vfsInit (internal : Nat → σ) : Vfs σ where
  filesystems := fun _ => { filesystem := none, mountpoint := [] }
  files := fun _ => { filesystem := none, fileid := 0, seekPosition := 0 }
  vfsTableSem := 1
  openfileTableSem := 1
  vfsOpSem := 1
  vfsUnmountSem := 0
  vfsOps := 0
  vfsUsable := true
  internal := internal

/-! ## Names -/

def leftBracket : CChar := ⟨0x5b, by decide⟩
def rightBracket : CChar := ⟨0x5d, by decide⟩

/-- The volume part: up to the closing bracket, which must come within `n`
characters. -/
def parseVolume : Nat → Name → Option (Name × Name)
  | 0, _ => none
  | _ + 1, [] => none
  | n + 1, c :: rest =>
      if c = rightBracket then some ([], rest)
      else (parseVolume n rest).map fun r => (c :: r.1, r.2)

/-- The file name: what is left, if it ends within `n` bytes, terminator included. -/
def parseFilename : Nat → Name → Option Name
  | 0, _ => none
  | _ + 1, [] => some []
  | n + 1, c :: rest => (parseFilename n rest).map (c :: ·)

/-- Without a leading bracket the volume name is empty. -/
def vfsParsePathname : Name → Option (Name × Name)
  | [] => (parseFilename VFS_NAME_LENGTH []).map fun f => ([], f)
  | c :: rest =>
      if c = leftBracket then
        (parseVolume (VFS_NAME_LENGTH - 1) rest).bind fun r =>
          (parseFilename VFS_NAME_LENGTH r.2).map fun f => (r.1, f)
      else (parseFilename VFS_NAME_LENGTH (c :: rest)).map fun f => ([], f)

/-- The first row with this mountpoint, mounted or not. -/
def findMountpoint (s : Vfs σ) (mountpoint : Name) : Option Nat :=
  (List.range CONFIG_MAX_FILESYSTEMS).find? fun row =>
    stringcmp (s.filesystems row).mountpoint mountpoint = 0

def vfsGetFilesystem (s : Vfs σ) (mountpoint : Name) : Option Nat :=
  (findMountpoint s mountpoint).bind fun row => (s.filesystems row).filesystem

/-! ## Operations -/

def vfsStartOp : Prog (Vfs σ) Int := do
  semaphoreP .vfsOp
  let usable ← Prog.gets fun s => s.vfsUsable
  if usable then do
    Prog.modify fun s => { s with vfsOps := s.vfsOps + 1 }
    semaphoreV .vfsOp
    pure VFS_OK
  else do
    semaphoreV .vfsOp
    pure VFS_UNUSABLE

def vfsEndOp : Prog (Vfs σ) Unit := do
  semaphoreP .vfsOp
  Prog.modify fun s => { s with vfsOps := s.vfsOps - 1 }
  Prog.assert (fun s => 0 ≤ s.vfsOps) .assertion
  let wake ← Prog.gets fun s => !s.vfsUsable && s.vfsOps == 0
  if wake then do
    semaphoreV .vfsUnmount
    semaphoreV .vfsOp
  else semaphoreV .vfsOp

/-- Leave an operation with a result. -/
def leave {α : Type} (result : α) : Prog (Vfs σ) α := do
  vfsEndOp
  pure result

def unmountRows (ops : FsOps σ) : List Nat → Prog (Vfs σ) Unit
  | [] => pure ()
  | row :: rows => do
      let fs ← Prog.gets fun s => (s.filesystems row).filesystem
      match fs with
      | none => unmountRows ops rows
      | some fs => do
          let _ ← onFs fs ops.unmount
          Prog.modify fun s => s.setFilesystem row { s.filesystems row with filesystem := none }
          unmountRows ops rows

def vfsDeinit (ops : FsOps σ) : Prog (Vfs σ) Unit := do
  semaphoreP .vfsOp
  Prog.modify fun s => { s with vfsUsable := false }
  let pending ← Prog.gets fun s => decide (0 < s.vfsOps)
  if pending then do
    semaphoreV .vfsOp
    semaphoreP .vfsUnmount
    semaphoreP .vfsOp
    Prog.assert (fun s => s.vfsOps == 0) .assertion
  else pure ()
  semaphoreP .vfsTable
  semaphoreP .openfileTable
  unmountRows ops (List.range CONFIG_MAX_FILESYSTEMS)
  semaphoreV .openfileTable
  semaphoreV .vfsTable
  semaphoreV .vfsOp

def vfsMount (fs : Nat) (name : Name) : Prog (Vfs σ) Int := do
  Prog.assert (fun _ => name ≠ []) .assertion
  let started ← vfsStartOp
  if started ≠ VFS_OK then pure VFS_UNUSABLE
  else do
    semaphoreP .vfsTable
    let free ← Prog.gets fun s => (List.range CONFIG_MAX_FILESYSTEMS).find? fun row =>
      (s.filesystems row).filesystem = none
    match free with
    | none => do
        semaphoreV .vfsTable
        leave VFS_LIMIT
    | some row => do
        let known ← Prog.gets fun s => findMountpoint s name
        match known with
        | some _ => do
            semaphoreV .vfsTable
            leave VFS_ERROR
        | none => do
            Prog.modify fun s => s.setFilesystem row
              { filesystem := some fs, mountpoint := stringcopy name VFS_NAME_LENGTH }
            semaphoreV .vfsTable
            leave VFS_OK

def vfsUnmount (ops : FsOps σ) (name : Name) : Prog (Vfs σ) Int := do
  let started ← vfsStartOp
  if started ≠ VFS_OK then pure VFS_UNUSABLE
  else do
    semaphoreP .vfsTable
    let found ← Prog.gets fun s => findMountpoint s name
    let fs ← Prog.gets fun s => vfsGetFilesystem s name
    match found, fs with
    | some row, some fs => do
        semaphoreP .openfileTable
        let inUse ← Prog.gets fun s => (List.range CONFIG_MAX_OPEN_FILES).find? fun i =>
          (s.files i).filesystem = some fs
        match inUse with
        | some _ => do
            semaphoreV .openfileTable
            semaphoreV .vfsTable
            leave VFS_IN_USE
        | none => do
            let _ ← onFs fs ops.unmount
            Prog.modify fun s => s.setFilesystem row { s.filesystems row with filesystem := none }
            semaphoreV .openfileTable
            semaphoreV .vfsTable
            leave VFS_OK
    | _, _ => do
        semaphoreV .vfsTable
        leave VFS_NOT_FOUND

/-- The first unused row of the open-file table. -/
def freeRow (s : Vfs σ) : Option Nat :=
  (List.range CONFIG_MAX_OPEN_FILES).find? fun file => (s.files file).filesystem = none

theorem freeRow_some {s : Vfs σ} {row : Nat} (found : freeRow s = some row) :
    row < CONFIG_MAX_OPEN_FILES ∧ (s.files row).filesystem = none := by
  have member := List.mem_of_find?_eq_some found
  have free := List.find?_some found
  simp only [List.mem_range, decide_eq_true_eq] at member free
  exact ⟨member, free⟩

def vfsOpen (ops : FsOps σ) (pathname : Name) : Prog (Vfs σ) Int := do
  let started ← vfsStartOp
  if started ≠ VFS_OK then pure VFS_UNUSABLE
  else match vfsParsePathname pathname with
  | none => leave VFS_ERROR
  | some (volumename, filename) => do
      semaphoreP .vfsTable
      semaphoreP .openfileTable
      let row ← Prog.gets freeRow
      match row with
      | none => do
          semaphoreV .openfileTable
          semaphoreV .vfsTable
          leave VFS_LIMIT
      | some file => do
          let fs ← Prog.gets fun s => vfsGetFilesystem s volumename
          match fs with
          | none => do
              semaphoreV .openfileTable
              semaphoreV .vfsTable
              leave VFS_NO_SUCH_FS
          | some fs => do
              -- the row is reserved before the driver is asked
              Prog.modify fun s => s.setFile file { s.files file with filesystem := some fs }
              semaphoreV .openfileTable
              semaphoreV .vfsTable
              let fileid ← onFs fs (ops.openFile filename)
              if fileid < 0 then do
                semaphoreP .openfileTable
                Prog.modify fun s => s.setFile file { s.files file with filesystem := none }
                semaphoreV .openfileTable
                leave fileid
              else do
                Prog.modify fun s =>
                  s.setFile file { s.files file with fileid := fileid, seekPosition := 0 }
                leave (file : Int)

/-- The row of an open file and the filesystem it names. -/
def openRow (s : Vfs σ) (file : Int) : Option (Nat × Nat) :=
  if 0 ≤ file ∧ file < CONFIG_MAX_OPEN_FILES then
    (s.files file.toNat).filesystem.map fun fs => (file.toNat, fs)
  else none

theorem openRow_some {s : Vfs σ} {file : Int} {row fs : Nat}
    (found : openRow s file = some (row, fs)) :
    file = row ∧ row < CONFIG_MAX_OPEN_FILES ∧ (s.files row).filesystem = some fs := by
  unfold openRow at found
  split at found
  · rename_i bounds
    simp only [Option.map_eq_some_iff, Prod.mk.injEq] at found
    obtain ⟨fs', mounted, rfl, rfl⟩ := found
    exact ⟨by omega, by omega, mounted⟩
  · cases found

/-- Anything but an open file fails an assertion. -/
def vfsVerifyOpen (file : Int) : Prog (Vfs σ) (Nat × Nat) := fun s =>
  match openRow s file with
  | some r => .returned (r, s)
  | none => .stopped .assertion

def vfsClose (ops : FsOps σ) (file : Int) : Prog (Vfs σ) Int := do
  let started ← vfsStartOp
  if started ≠ VFS_OK then pure VFS_UNUSABLE
  else do
    semaphoreP .openfileTable
    let (row, fs) ← vfsVerifyOpen file
    let fileid ← Prog.gets fun s => (s.files row).fileid
    let ret ← onFs fs (ops.close fileid)
    Prog.modify fun s => s.setFile row { s.files row with filesystem := none }
    semaphoreV .openfileTable
    leave ret

def vfsSeek (file seekPosition : Int) : Prog (Vfs σ) Int := do
  let started ← vfsStartOp
  if started ≠ VFS_OK then pure VFS_UNUSABLE
  else do
    Prog.assert (fun _ => 0 ≤ seekPosition) .assertion
    semaphoreP .openfileTable
    let (row, _) ← vfsVerifyOpen file
    Prog.modify fun s => s.setFile row { s.files row with seekPosition := seekPosition }
    semaphoreV .openfileTable
    leave VFS_OK

/-- Advance the seek position after a transfer of `ret` bytes. -/
def advance (row : Nat) (ret : Int) : Prog (Vfs σ) Unit :=
  if 0 < ret then do
    semaphoreP .openfileTable
    Prog.modify fun s => s.setFile row
      { s.files row with seekPosition := toInt32 ((s.files row).seekPosition + ret) }
    semaphoreV .openfileTable
  else pure ()

/-- `buffer` says that the caller's pointer is not NULL. -/
def vfsRead (ops : FsOps σ) (file : Int) (buffer : Bool) (bufsize : Int) :
    Prog (Vfs σ) (Int × List Byte) := do
  let started ← vfsStartOp
  if started ≠ VFS_OK then pure (VFS_UNUSABLE, [])
  else do
    let (row, fs) ← vfsVerifyOpen file
    Prog.assert (fun _ => 0 ≤ bufsize && buffer) .assertion
    let entry ← Prog.gets fun s => s.files row
    let ret ← onFs fs (ops.read entry.fileid bufsize entry.seekPosition)
    advance row ret.1
    leave ret

/-- A NULL buffer is `none`. -/
def vfsWrite (ops : FsOps σ) (file : Int) (buffer : Option (List Byte)) (datasize : Int) :
    Prog (Vfs σ) Int := do
  let started ← vfsStartOp
  if started ≠ VFS_OK then pure VFS_UNUSABLE
  else do
    let (row, fs) ← vfsVerifyOpen file
    match buffer with
    | none => Prog.stop .assertion
    | some bytes => do
        Prog.assert (fun _ => 0 ≤ datasize) .assertion
        let entry ← Prog.gets fun s => s.files row
        let ret ← onFs fs (ops.write entry.fileid bytes datasize entry.seekPosition)
        advance row ret
        leave ret

/-- An operation on the volume that a name selects, made with the mount table
locked; `failed` turns an error code into a result. -/
def onVolume {α : Type} (volumename : Name) (failed : Int → α) (m : Prog σ α) :
    Prog (Vfs σ) α := do
  semaphoreP .vfsTable
  let fs ← Prog.gets fun s => vfsGetFilesystem s volumename
  match fs with
  | none => do
      semaphoreV .vfsTable
      leave (failed VFS_NO_SUCH_FS)
  | some fs => do
      let ret ← onFs fs m
      semaphoreV .vfsTable
      leave ret

/-- An operation on a path: parse it, then run `m` on the file part. -/
def onPath {α : Type} (pathname : Name) (failed : Int → α) (m : Name → Prog σ α) :
    Prog (Vfs σ) α := do
  let started ← vfsStartOp
  if started ≠ VFS_OK then pure (failed VFS_UNUSABLE)
  else match vfsParsePathname pathname with
  | none => leave (failed VFS_ERROR)
  | some (volumename, filename) => onVolume volumename failed (m filename)

def vfsCreate (ops : FsOps σ) (pathname : Name) (size : Int) : Prog (Vfs σ) Int := do
  Prog.assert (fun _ => 0 ≤ size) .assertion
  onPath pathname id fun filename => ops.create filename size

def vfsRemove (ops : FsOps σ) (pathname : Name) : Prog (Vfs σ) Int :=
  onPath pathname id fun filename => ops.remove filename

def vfsGetfree (ops : FsOps σ) (filesystem : Name) : Prog (Vfs σ) Int := do
  let started ← vfsStartOp
  if started ≠ VFS_OK then pure VFS_UNUSABLE
  else onVolume filesystem id ops.getfree

def vfsFilecount (ops : FsOps σ) (pathname : Name) : Prog (Vfs σ) Int :=
  onPath pathname id fun dirname => ops.filecount dirname

def vfsFile (ops : FsOps σ) (pathname : Name) (idx : Int) : Prog (Vfs σ) (Int × Name) :=
  onPath pathname (fun code => (code, [])) fun dirname => ops.file dirname idx

end Buenos.Fs
