/-
# Fs.Tfs -- the TFS driver

fs/tfs.c over a `Volume`.  The directory block has the format of FlatFS, so the searches
through it are those of `Fs.FlatFs`; `buffer_inode->block[i]` is word `1 + i` of `.inode`,
up to word 127.

A block number that is read from past the end of the inode is whatever the state holds
there; a bit that is cleared past the end of the bitmap stops the program.
-/
import Buenos.Fs.FlatFs

namespace Buenos.Fs

open Buenos.Lib Buenos.Theory

set_option autoImplicit false

def TFS_BLOCK_SIZE : Nat := 512
def TFS_ALLOCATION_BLOCK : Nat := 1
def TFS_DIRECTORY_BLOCK : Nat := 2
def TFS_FILENAME_MAX : Nat := 16
def TFS_MAX_FILES : Nat := 25

example : TFS_MAX_FILES = FLATFS_MAX_FILES := rfl

inductive TfsBuffer where
  | inode
  | bat
  | md
  deriving DecidableEq, Repr

abbrev Tfs := Volume TfsBuffer

/-! ## Helpers -/

/-- `bitmap_findnset`, with the result in word `i` of buffer `b`; -1 is stored when no
block is free. -/
def tfsFindnset (b : TfsBuffer) (i : Nat) : Prog Tfs Bool := fun s =>
  match bitmapFindnset (s.buffer .bat) s.totalblocks with
  | some (p, bat) => .returned (true, (s.setBuffer .bat bat).setWord b i (BitVec.ofNat 32 p))
  | none => .returned (false, { s.setWord b i 0xffffffff#32 with refused := s.refused + 1 })

/-- Zero the words `lo`, .., `hi - 1` of a buffer. -/
def tfsClear (b : TfsBuffer) (lo hi : Nat) : Prog Tfs Unit :=
  Prog.modify fun s => s.setBuffer b fun i => if lo ≤ i ∧ i < hi then 0 else s.buffer b i

/-- The bitmap entry of `block` is cleared. -/
def tfsFree (block : Word) : Prog Tfs Unit := do
  Prog.assert (fun _ => block.toNat < 0x80000000) .assertion
  Prog.assert (fun _ => block.toNat < 8 * TFS_BLOCK_SIZE) .outOfBounds
  Prog.modify fun s => s.setBuffer .bat (bitmapSet (s.buffer .bat) block.toNat false)

/-- Block `b` of the file in the inode buffer, read into the bitmap buffer. -/
def tfsLoad (b : Nat) : Prog Tfs Bool := do
  let block ← Prog.gets fun s => s.buffer .inode (directWord b)
  readBlock block .bat

/-- The bitmap buffer, written to block `b` of the file. -/
def tfsSave (b : Nat) : Prog Tfs Bool := do
  let block ← Prog.gets fun s => s.buffer .inode (directWord b)
  writeBuffer block .bat

/-! ## The directory operations -/

def tfsUnmount : Prog Tfs Int := do
  lockP
  pure VFS_OK

def tfsOpen (filename : Name) : Prog Tfs Int := do
  lockP
  let loaded ← readBlock (BitVec.ofNat 32 TFS_DIRECTORY_BLOCK) .md
  if loaded then do
    let md ← Prog.gets fun s => s.buffer .md
    match findEntry md filename with
    | some j => unlock (toInt32 (entryInode md j).toNat)
    | none => unlock VFS_NOT_FOUND
  else unlock VFS_ERROR

def tfsClose (_fileid : Int) : Prog Tfs Int := pure VFS_OK

/-- A block for each of `n` entries of the inode's table, from entry `i` on. -/
def tfsTakeBlocks : Nat → Nat → Prog Tfs Bool
  | _, 0 => pure true
  | i, n + 1 => do
      let taken ← tfsFindnset .inode (directWord i)
      if taken then tfsTakeBlocks (i + 1) n else pure false

/-- The bitmap buffer, written to `n` blocks of the file, from block `i` on. -/
def tfsZeroBlocks : Nat → Nat → Prog Tfs Bool
  | _, 0 => pure true
  | i, n + 1 => do
      let written ← tfsSave i
      if written then tfsZeroBlocks (i + 1) n else pure false

/-- The writes of `tfs_create`: the three tables, then zeros to the new blocks.  The
bitmap's buffer is the zero buffer. -/
def tfsCreateStore (index numblocks : Nat) : Prog Tfs Int := do
  let stored ← writeBuffer (BitVec.ofNat 32 TFS_ALLOCATION_BLOCK) .bat
  if stored then do
    let stored ← writeBuffer (BitVec.ofNat 32 TFS_DIRECTORY_BLOCK) .md
    if stored then do
      let inode ← Prog.gets fun s => entryInode (s.buffer .md) index
      let stored ← writeBuffer inode .inode
      if stored then do
        tfsClear .bat 0 (TFS_BLOCK_SIZE / 4)
        let zeroed ← tfsZeroBlocks 0 numblocks
        if zeroed then unlock VFS_OK else unlock VFS_ERROR
      else unlock VFS_ERROR
    else unlock VFS_ERROR
  else unlock VFS_ERROR

/-- The allocations of `tfs_create`, with the bitmap in its buffer. -/
def tfsCreateAlloc (index numblocks size : Nat) : Prog Tfs Int := do
  let taken ← tfsFindnset .md (5 * index)
  if taken then do
    Prog.modify fun s => s.setWord .inode 0 (BitVec.ofNat 32 size)
    let done ← tfsTakeBlocks 0 numblocks
    if done then do
      tfsClear .inode (directWord numblocks) (directWord (TFS_BLOCK_SIZE / 4 - 1))
      tfsCreateStore index numblocks
    else unlock VFS_ERROR
  else unlock VFS_ERROR

def tfsCreate (filename : Name) (size : CInt) : Prog Tfs Int := do
  let numblocks := toUint32 ((toInt32 (size.val + TFS_BLOCK_SIZE - 1)).tdiv TFS_BLOCK_SIZE)
  lockP
  if TFS_BLOCK_SIZE / 4 - 1 < numblocks then unlock VFS_ERROR
  else do
    let loaded ← readBlock (BitVec.ofNat 32 TFS_DIRECTORY_BLOCK) .md
    if loaded then do
      let md ← Prog.gets fun s => s.buffer .md
      match findEntry md filename, findSlot md with
      | none, some index => do
          Prog.modify fun s => s.setBuffer .md
            (copyName (s.buffer .md) (20 * index + 4) filename TFS_FILENAME_MAX)
          let loaded ← readBlock (BitVec.ofNat 32 TFS_ALLOCATION_BLOCK) .bat
          if loaded then tfsCreateAlloc index numblocks (toUint32 size.val) else unlock VFS_ERROR
      | _, _ => unlock VFS_ERROR
    else unlock VFS_ERROR

/-- Free the blocks of the file from block `i` on, up to the first unused entry; `n`
entries of the inode are left. -/
def tfsFreeBlocks : Nat → Nat → Prog Tfs Unit
  | _, 0 => pure ()
  | i, n + 1 => do
      let block ← Prog.gets fun s => s.buffer .inode (directWord i)
      if block ≠ 0 then do
        tfsFree block
        tfsFreeBlocks (i + 1) n
      else pure ()

/-- `tfs_remove` with the bitmap and the inode in their buffers. -/
def tfsRemoveBlocks (index : Nat) : Prog Tfs Int := do
  let inode ← Prog.gets fun s => entryInode (s.buffer .md) index
  tfsFree inode
  tfsFreeBlocks 0 (TFS_BLOCK_SIZE / 4 - 1)
  Prog.modify fun s => s.setWord .md (5 * index) 0
  Prog.modify fun s => s.setBuffer .md (memcopy 1 (s.buffer .md) (20 * index + 4) fun _ => 0)
  let stored ← writeBuffer (BitVec.ofNat 32 TFS_ALLOCATION_BLOCK) .bat
  if stored then do
    let stored ← writeBuffer (BitVec.ofNat 32 TFS_DIRECTORY_BLOCK) .md
    if stored then unlock VFS_OK else unlock VFS_ERROR
  else unlock VFS_ERROR

def tfsRemove (filename : Name) : Prog Tfs Int := do
  lockP
  let loaded ← readBlock (BitVec.ofNat 32 TFS_DIRECTORY_BLOCK) .md
  if loaded then do
    let md ← Prog.gets fun s => s.buffer .md
    match findEntry md filename with
    | none => unlock VFS_NOT_FOUND
    | some index => do
        let loaded ← readBlock (BitVec.ofNat 32 TFS_ALLOCATION_BLOCK) .bat
        if loaded then do
          let loaded ← readBlock (entryInode md index) .inode
          if loaded then tfsRemoveBlocks index else unlock VFS_ERROR
        else unlock VFS_ERROR
  else unlock VFS_ERROR

/-! ## Reading and writing -/

/-- The loop of `tfs_read`: `n` blocks to go, block `b1` next, `read` bytes and `out` in
the caller's buffer so far. -/
def tfsReadLoop (b2 bufsize : Int) :
    Nat → Nat → Int → List Byte → Prog Tfs (Option (Int × List Byte))
  | 0, _, read, out => pure (some (read, out))
  | n + 1, b1, read, out => do
      let loaded ← tfsLoad b1
      if loaded then do
        let bat ← Prog.gets fun s => s.buffer .bat
        if (b1 : Int) = b2 then
          tfsReadLoop b2 bufsize n (b1 + 1) bufsize
            (out ++ (List.range (bufsize - read).toNat).map fun k => bat.byte k)
        else
          tfsReadLoop b2 bufsize n (b1 + 1) (read + TFS_BLOCK_SIZE)
            (out ++ (List.range TFS_BLOCK_SIZE).map fun k => bat.byte k)
      else pure none

/-- `tfs_read` of `bufsize` bytes, within the file in the inode buffer. -/
def tfsReadBlocks (bufsize offset : Int) : Prog Tfs (Int × List Byte) := do
  let b1 := (offset.tdiv TFS_BLOCK_SIZE).toNat
  let b2 := (toInt32 (offset + bufsize - 1)).tdiv TFS_BLOCK_SIZE
  let loaded ← tfsLoad b1
  if loaded then do
    let bat ← Prog.gets fun s => s.buffer .bat
    let pos := (offset % TFS_BLOCK_SIZE).toNat
    let read := min ((TFS_BLOCK_SIZE : Int) - pos) bufsize
    let result ← tfsReadLoop b2 bufsize (b2 - b1).toNat (b1 + 1) read
      ((List.range read.toNat).map fun k => bat.byte (pos + k))
    match result with
    | some r => unlock r
    | none => unlock (VFS_ERROR, [])
  else unlock (VFS_ERROR, [])

def tfsRead (fileid bufsize offset : CInt) : Prog Tfs (Int × List Byte) := do
  lockP
  let totalblocks ← Prog.gets fun s => s.totalblocks
  if fileid.val < 2 ∨ (totalblocks : Int) < fileid.val then unlock (VFS_ERROR, [])
  else do
    let loaded ← readBlock (BitVec.ofInt 32 fileid.val) .inode
    if loaded then do
      let filesize ← Prog.gets fun s => toInt32 (s.buffer .inode 0).toNat
      if offset.val < 0 ∨ filesize < offset.val then unlock (VFS_ERROR, [])
      else do
        let bufsize := min bufsize.val (filesize - offset.val)
        if bufsize = 0 then unlock (0, []) else tfsReadBlocks bufsize offset.val
    else unlock (VFS_ERROR, [])

/-- The loop of `tfs_write`: `n` blocks to go, block `b1` next, `written` bytes of the
caller's buffer done. -/
def tfsWriteLoop (b2 : Int) (buffer : Nat → Byte) (datasize : Int) :
    Nat → Nat → Int → Prog Tfs (Option Int)
  | 0, _, written => pure (some written)
  | n + 1, b1, written => do
      if (b1 : Int) = b2 then do
        let loaded ← if datasize - written < TFS_BLOCK_SIZE then tfsLoad b1 else pure true
        if loaded then do
          Prog.modify fun s => s.setBuffer .bat
            (memcopy (datasize - written).toNat (s.buffer .bat) 0
              fun k => buffer (written.toNat + k))
          let stored ← tfsSave b1
          if stored then tfsWriteLoop b2 buffer datasize n (b1 + 1) datasize else pure none
        else pure none
      else do
        Prog.modify fun s => s.setBuffer .bat
          (memcopy TFS_BLOCK_SIZE (s.buffer .bat) 0 fun k => buffer (written.toNat + k))
        let stored ← tfsSave b1
        if stored then tfsWriteLoop b2 buffer datasize n (b1 + 1) (written + TFS_BLOCK_SIZE)
        else pure none

/-- `tfs_write` of `datasize` bytes, within the file in the inode buffer. -/
def tfsWriteBlocks (buffer : Nat → Byte) (datasize offset : Int) : Prog Tfs Int := do
  let b1 := (offset.tdiv TFS_BLOCK_SIZE).toNat
  let b2 := (toInt32 (offset + datasize - 1)).tdiv TFS_BLOCK_SIZE
  let pos := (offset % TFS_BLOCK_SIZE).toNat
  let written := min ((TFS_BLOCK_SIZE : Int) - pos) datasize
  let loaded ← if written < TFS_BLOCK_SIZE then tfsLoad b1 else pure true
  if loaded then do
    Prog.modify fun s => s.setBuffer .bat (memcopy written.toNat (s.buffer .bat) pos buffer)
    let stored ← tfsSave b1
    if stored then do
      let result ← tfsWriteLoop b2 buffer datasize (b2 - b1).toNat (b1 + 1) written
      match result with
      | some written => unlock written
      | none => unlock VFS_ERROR
    else unlock VFS_ERROR
  else unlock VFS_ERROR

/-- `buffer k` is byte `k` of the caller's buffer. -/
def tfsWrite (fileid : CInt) (buffer : Nat → Byte) (datasize offset : CInt) : Prog Tfs Int := do
  lockP
  let totalblocks ← Prog.gets fun s => s.totalblocks
  if fileid.val < 2 ∨ (totalblocks : Int) < fileid.val then unlock VFS_ERROR
  else do
    let loaded ← readBlock (BitVec.ofInt 32 fileid.val) .inode
    if loaded then do
      let filesize ← Prog.gets fun s => toInt32 (s.buffer .inode 0).toNat
      if offset.val < 0 ∨ filesize < offset.val then unlock VFS_ERROR
      else do
        let datasize := min datasize.val (filesize - offset.val)
        if datasize = 0 then unlock 0 else tfsWriteBlocks buffer datasize offset.val
    else unlock VFS_ERROR

/-! ## Free space and the directory -/

def tfsGetfree : Prog Tfs Int := do
  lockP
  let loaded ← readBlock (BitVec.ofNat 32 TFS_ALLOCATION_BLOCK) .bat
  if loaded then do
    let free ← Prog.gets fun s => freeBytes s.totalblocks (s.buffer .bat)
    unlock free
  else unlock VFS_ERROR

/-- A failed request gives the error code with its sign turned. -/
def tfsFilecount (dirname : Name) : Prog Tfs Int :=
  if stringcmp dirname [] ≠ 0 then pure (-VFS_NOT_FOUND)
  else do
    lockP
    let loaded ← readBlock (BitVec.ofNat 32 TFS_DIRECTORY_BLOCK) .md
    if loaded then do
      let count ← Prog.gets fun s => ((usedEntries (s.buffer .md)).length : Int)
      unlock count
    else unlock (-VFS_ERROR)

/-- The result is VFS_ERROR on every path. -/
def tfsFile (dirname : Name) (idx : CInt) : Prog Tfs (Int × Name) :=
  if stringcmp dirname [] ≠ 0 ∨ idx.val < 0 then pure (VFS_ERROR, [])
  else do
    lockP
    let loaded ← readBlock (BitVec.ofNat 32 TFS_DIRECTORY_BLOCK) .md
    if loaded then do
      let md ← Prog.gets fun s => s.buffer .md
      match (usedEntries md)[idx.val.toNat]? with
      | some j => unlock (VFS_ERROR, stringcopy (entryName md j) TFS_FILENAME_MAX)
      | none => unlock (VFS_ERROR, [])
    else unlock (VFS_ERROR, [])

def tfsMkdir (_dirname : Name) : Prog Tfs Int := pure VFS_NOT_SUPPORTED

def tfsRmdir (_dirname : Name) : Prog Tfs Int := pure VFS_NOT_SUPPORTED

end Buenos.Fs
