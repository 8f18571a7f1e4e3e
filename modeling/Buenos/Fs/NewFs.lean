/-
# Fs.NewFs -- the NewFS driver

fs/newfs.c.  The five block buffers of the source lie one behind the other, and an index into
`buffer_md` can run past the block that was read into it, so `memory` is the kernel's memory in
words from `buffer_inode` on.  `inodeBuffer`, .., `diBuffer` are where the buffers start;
`buffer_md[i].inode` is word `5 * i` of the third, `buffer_inode->block[i]` word `1 + i` of the
first, `block_indir` word 8 of it and `block_dbl_indir` word 9.

The bitmap functions read a block into an array on the stack and ignore a request that is refused:
`stack n` is what the array holds before the `n`th request.  `indexed` records the entries of
`buffer_md` that the scans of the directory look at.

The helpers return `true` where the source returns VFS_OK.  Loops carry the number of rounds left;
the loop of `newfs_remove`, whose counter can wrap, is bounded by the end of the buffer that it
indexes, and stops the program there.
-/
import Buenos.Fs.FlatFs

namespace Buenos.Fs

open Buenos.Lib Buenos.Theory

set_option autoImplicit false

def NEWFS_BLOCK_SIZE : Nat := 512
def NEWFS_BLOCK_BITS : Nat := NEWFS_BLOCK_SIZE * 8
def NEWFS_MAGIC : Word := 0xFEEDBEEF
def NEWFS_ALLOCATION_BLOCK : Nat := 1
def NEWFS_VOLUMENAME_MAX : Nat := 16
def NEWFS_FILENAME_MAX : Nat := 16
def NEWFS_BLOCKS_DIRECT : Nat := 7
def NEWFS_BLOCKS_SINDIR : Nat := 128
def NEWFS_BLOCKS_DINDIR : Nat := NEWFS_BLOCKS_SINDIR * NEWFS_BLOCKS_SINDIR
def NEWFS_MAX_BLOCKS : Nat := NEWFS_BLOCKS_DIRECT + NEWFS_BLOCKS_SINDIR + NEWFS_BLOCKS_DINDIR

/-- `NEWFS_MAX_BLOCKS * NEWFS_BLOCK_SIZE / sizeof(newfs_direntry_t)`. -/
def NEWFS_MAX_FILES : Nat := NEWFS_MAX_BLOCKS * NEWFS_BLOCK_SIZE / 20

structure NewFs where
  disk : Disk
  totalblocks : Word
  lock : Int
  memory : Block
  stack : Nat → Block
  indexed : List Nat

def inodeBuffer : Nat := 0
def batBuffer : Nat := 128
def mdBuffer : Nat := 256
def siBuffer : Nat := 384
def diBuffer : Nat := 512

/-- The block of the root directory. -/
def newfsDirectoryBlock (totalblocks : Word) : Word :=
  BitVec.ofNat 32 (NEWFS_ALLOCATION_BLOCK + totalblocks.toNat / NEWFS_BLOCK_BITS +
    if totalblocks.toNat % NEWFS_BLOCK_BITS = 0 then 0 else 1)

namespace NewFs

def setWord (s : NewFs) (i : Nat) (w : Word) : NewFs :=
  { s with memory := Function.update s.memory i w }

/-- A block read into the buffer that starts at word `buffer`. -/
def load (s : NewFs) (buffer : Nat) (content : Block) : NewFs :=
  { s with
    memory := fun i =>
      if buffer ≤ i ∧ i < buffer + 128 then content (i - buffer) else s.memory i }

/-- What the buffer that starts at word `buffer` holds. -/
def content (s : NewFs) (buffer : Nat) : Block := fun i => if i < 128 then s.memory (buffer + i) else 0

end NewFs

namespace NewFs

def lockP : Prog NewFs Unit := fun s =>
  if 0 < s.lock then .returned ((), { s with lock := s.lock - 1 }) else .stopped .asleep

def lockV : Prog NewFs Unit := Prog.modify fun s => { s with lock := s.lock + 1 }

/-- Release the lock and return. -/
def unlock {α : Type} (result : α) : Prog NewFs α := do
  lockV
  pure result

/-- `newfs_disk_action` for reading, into the buffer that starts at word `buffer`. -/
def readBlock (block : Word) (buffer : Nat) : Prog NewFs Bool := fun s =>
  match diskSubmitRequest ⟨block.toNat, .read⟩ id s.disk with
  | .returned (true, d) => .returned (true, { s with disk := d }.load buffer (d.blocks block.toNat))
  | .returned (false, d) => .returned (false, { s with disk := d })
  | .stopped why => .stopped why

/-- `newfs_disk_action` for writing. -/
def writeBlock (block : Word) (content : Block) : Prog NewFs Bool :=
  Prog.zoom (fun s => s.disk) (fun d s => { s with disk := d })
    (diskSubmitRequest ⟨block.toNat, .write⟩ fun d =>
      { d with blocks := Function.update d.blocks block.toNat content })

def writeBuffer (block : Word) (buffer : Nat) : Prog NewFs Bool := fun s =>
  writeBlock block (s.content buffer) s

/-- What `block_buffer` holds after a block has been read into it. -/
def readStack (block : Word) : Prog NewFs Block := fun s =>
  match diskSubmitRequest ⟨block.toNat, .read⟩ id s.disk with
  | .returned (true, d) => .returned (d.blocks block.toNat, { s with disk := d })
  | .returned (false, d) => .returned (s.stack s.disk.asked, { s with disk := d })
  | .stopped why => .stopped why

/-- `newfs->buffer_md[i]` is looked at. -/
def touch (i : Nat) : Prog NewFs Unit := Prog.modify fun s => { s with indexed := i :: s.indexed }

end NewFs

open NewFs

/-! ## Bitmaps of several blocks -/

/-- `(pos / NEWFS_BLOCK_BITS) + ((pos % NEWFS_BLOCK_BITS == 0) ? 0 : 1) + 1`. -/
def bitmapBlock (pos : Nat) : Nat :=
  pos / NEWFS_BLOCK_BITS + (if pos % NEWFS_BLOCK_BITS = 0 then 0 else 1) + 1

def blockbitmapGet (pos l : Int) : Prog NewFs Bool := do
  Prog.assert (fun _ => 0 ≤ pos) .assertion
  Prog.assert (fun _ => pos < l) .assertion
  let buffer ← readStack (BitVec.ofNat 32 (bitmapBlock pos.toNat))
  pure (bitmapGet buffer (pos.toNat % NEWFS_BLOCK_BITS))

def blockbitmapSet (pos l : Int) (value : Bool) : Prog NewFs Unit := do
  Prog.assert (fun _ => 0 ≤ pos) .assertion
  Prog.assert (fun _ => pos < l) .assertion
  let buffer ← readStack (BitVec.ofNat 32 (bitmapBlock pos.toNat))
  let _ ← NewFs.writeBlock (BitVec.ofNat 32 (bitmapBlock pos.toNat))
    (bitmapSet buffer (pos.toNat % NEWFS_BLOCK_BITS) value)
  pure ()

/-- The loop of `blockbitmap_findnset`.  Its `block` stays 0, and `l` goes down until the assertion
of `bitmap_findnset` fails, so `l / NEWFS_BLOCK_BITS + 2` rounds are never exceeded. -/
def findnsetRounds (maxBlock : Int) : Nat → Int → Prog NewFs Int
  | 0, _ => Prog.stop .forever
  | rounds + 1, l =>
      if 0 < maxBlock then do
        let buffer ← readStack 0
        Prog.assert (fun _ => 0 ≤ l) .assertion
        match bitmapFindnset buffer (min l NEWFS_BLOCK_BITS).toNat with
        | some (result, buffer) => do
            let _ ← NewFs.writeBlock 0 buffer
            pure result
        | none => findnsetRounds maxBlock rounds (l - NEWFS_BLOCK_BITS)
      else pure (-1)

def blockbitmapFindnset (l : Int) : Prog NewFs Int := do
  Prog.assert (fun _ => 0 ≤ l) .assertion
  let maxBlock := (toInt32 (l + NEWFS_BLOCK_BITS - 1)).tdiv NEWFS_BLOCK_BITS
  findnsetRounds maxBlock ((l / NEWFS_BLOCK_BITS).toNat + 2) l

/-! ## Allocation -/

/-- Take a block from the bitmap and store its number in word `target` of the memory. -/
def newfsBmAlloc (target : Nat) : Prog NewFs Bool := do
  let totalblocks ← Prog.gets fun s => s.totalblocks
  let p ← blockbitmapFindnset totalblocks.toInt
  Prog.modify fun s => s.setWord target (BitVec.ofInt 32 p)
  pure (BitVec.ofInt 32 p ≠ -1)

/-- Take and zero a block for each of `n` words of the memory, from word `i` on. -/
def newfsAllocZeroed : Nat → Nat → Prog NewFs Bool
  | _, 0 => pure true
  | i, n + 1 => do
      let taken ← newfsBmAlloc i
      if taken then do
        let block ← Prog.gets fun s => s.memory i
        let written ← NewFs.writeBlock block zeroblock
        if written then newfsAllocZeroed (i + 1) n else pure false
      else pure false

/-- Zero the words `lo`, .., `hi - 1` of the memory. -/
def newfsClearWords (lo hi : Nat) : Prog NewFs Unit :=
  Prog.modify fun s => { s with memory := fun i => if lo ≤ i ∧ i < hi then 0 else s.memory i }

/-- The address of `*ind`; `none` is the `todbl` of -1. -/
def indTarget : Option Nat → Nat
  | none => inodeBuffer + indirWord
  | some i => diBuffer + i

def newfsAllocIndir (todbl : Option Nat) (numblocks offset : Nat) : Prog NewFs Bool := do
  let ind ← Prog.gets fun s => s.memory (indTarget todbl)
  let got ← if ind = 0 then newfsBmAlloc (indTarget todbl) else pure true
  if got then do
    let ind ← Prog.gets fun s => s.memory (indTarget todbl)
    let loaded ← NewFs.readBlock ind siBuffer
    if loaded then do
      let filled ← newfsAllocZeroed (siBuffer + offset) numblocks
      if filled then do
        newfsClearWords (siBuffer + (offset + numblocks)) (siBuffer + NEWFS_BLOCKS_SINDIR)
        let ind ← Prog.gets fun s => s.memory (indTarget todbl)
        NewFs.writeBuffer ind siBuffer
      else pure false
    else pure false
  else pure false

/-- The loop over the double-indirect block; only the first round has an offset. -/
def newfsAllocDouble : Nat → Nat → Nat → Nat → Prog NewFs Bool
  | 0, _, _, _ => pure true
  | rounds + 1, i, numblocks, offset =>
      if numblocks = 0 then pure true
      else do
        let towrite := min numblocks (NEWFS_BLOCKS_SINDIR - offset)
        let done ← newfsAllocIndir (some i) towrite offset
        if done then newfsAllocDouble rounds (i + 1) (numblocks - towrite) 0 else pure false

def newfsStoreBat : Prog NewFs Bool :=
  NewFs.writeBuffer (BitVec.ofNat 32 NEWFS_ALLOCATION_BLOCK) batBuffer

/-- The double-indirect part of `newfs_alloc_blocks`, and the bitmap. -/
def newfsAllocBlocksDouble (numblocks offset : Nat) : Prog NewFs Bool :=
  if 0 < numblocks then do
    let dbl ← Prog.gets fun s => s.memory (inodeBuffer + dblIndirWord)
    let loaded ← NewFs.readBlock dbl diBuffer
    if loaded then do
      let offset := offset - (NEWFS_BLOCKS_DIRECT + NEWFS_BLOCKS_SINDIR)
      let done ← newfsAllocDouble numblocks (offset / NEWFS_BLOCKS_SINDIR) numblocks
        (offset % NEWFS_BLOCKS_SINDIR)
      if done then do
        let dbl ← Prog.gets fun s => s.memory (inodeBuffer + dblIndirWord)
        let written ← NewFs.writeBuffer dbl diBuffer
        if written then newfsStoreBat else pure false
      else pure false
    else pure false
  else newfsStoreBat

/-- The single-indirect part of `newfs_alloc_blocks`, and what follows. -/
def newfsAllocBlocksSingle (numblocks offset : Nat) : Prog NewFs Bool :=
  if 0 < numblocks ∧ offset < NEWFS_BLOCKS_DIRECT + NEWFS_BLOCKS_SINDIR then do
    let tmpblocks := min numblocks (NEWFS_BLOCKS_SINDIR + NEWFS_BLOCKS_DIRECT - offset)
    let done ← newfsAllocIndir none tmpblocks (offset - NEWFS_BLOCKS_DIRECT)
    if done then
      newfsAllocBlocksDouble (numblocks - tmpblocks) (NEWFS_BLOCKS_DIRECT + NEWFS_BLOCKS_SINDIR)
    else pure false
  else newfsAllocBlocksDouble numblocks offset

/-- Allocate `numblocks` blocks to the file in the inode buffer, from logical block `offset` on. -/
def newfsAllocBlocks (numblocks offset : Nat) : Prog NewFs Bool :=
  if offset < NEWFS_BLOCKS_DIRECT then do
    let tmpblocks := min (NEWFS_BLOCKS_DIRECT - offset) numblocks
    let done ← newfsAllocZeroed (inodeBuffer + directWord offset) tmpblocks
    if done then do
      newfsClearWords (inodeBuffer + directWord (tmpblocks + offset))
        (inodeBuffer + directWord NEWFS_BLOCKS_DIRECT)
      newfsAllocBlocksSingle (numblocks - tmpblocks) NEWFS_BLOCKS_DIRECT
    else pure false
  else newfsAllocBlocksSingle numblocks offset

/-- The bit of the block that a word names is cleared. -/
def newfsFree (block : Word) : Prog NewFs Unit := do
  let totalblocks ← Prog.gets fun s => s.totalblocks
  blockbitmapSet block.toInt totalblocks.toInt false

/-- Free the blocks that `n` words of the memory name, from word `i` on. -/
def newfsFreeNamed : Nat → Nat → Prog NewFs Unit
  | _, 0 => pure ()
  | i, n + 1 => do
      let block ← Prog.gets fun s => s.memory i
      if 0 < block.toNat then do
        newfsFree block
        newfsFreeNamed (i + 1) n
      else newfsFreeNamed (i + 1) n

def newfsRemoveIndir (todbl : Option Nat) : Prog NewFs Bool := do
  let ind ← Prog.gets fun s => s.memory (indTarget todbl)
  let loaded ← NewFs.readBlock ind siBuffer
  if loaded then do
    newfsFreeNamed siBuffer NEWFS_BLOCKS_SINDIR
    pure true
  else pure false

/-! ## The directory -/

/-- The word of `newfs->buffer_md[i].inode`. -/
def entryWord (i : Nat) : Nat := mdBuffer + 5 * i

/-- The first byte of `newfs->buffer_md[i].name`. -/
def entryNameByte (i : Nat) : Nat := 4 * entryWord i + 4

/-- `stringcmp` of the characters in memory from byte `pos` on with a string. -/
def stringcmpAt (memory : Block) : Nat → Name → Int
  | pos, [] => (memory.byte pos).toNat
  | pos, c :: s =>
      if memory.byte pos ≠ c.val then ((memory.byte pos).toNat : Int) - c.val.toNat
      else stringcmpAt memory (pos + 1) s

/-- The string that starts at byte `pos`, as far as `stringcopy` reads it. -/
def nameFrom (memory : Block) (pos : Nat) : Name :=
  cstring ((List.range NEWFS_FILENAME_MAX).map fun k => memory.byte (pos + k))

/-- The loop of `newfs_open` and `newfs_remove` over the entries, from entry `i` on. -/
def newfsFind (filename : Name) : Nat → Nat → Prog NewFs (Option Nat)
  | 0, _ => pure none
  | rounds + 1, i => do
      touch i
      let order ← Prog.gets fun s => stringcmpAt s.memory (entryNameByte i) filename
      if order = 0 then pure (some i) else newfsFind filename rounds (i + 1)

/-- The loop of `newfs_create`: nothing if the name is taken, else the last unused entry. -/
def newfsCreateScan (filename : Name) : Nat → Nat → Option Nat → Prog NewFs (Option (Option Nat))
  | 0, _, index => pure (some index)
  | rounds + 1, i, index => do
      touch i
      let order ← Prog.gets fun s => stringcmpAt s.memory (entryNameByte i) filename
      if order = 0 then pure none
      else do
        let inode ← Prog.gets fun s => s.memory (entryWord i)
        newfsCreateScan filename rounds (i + 1) (if inode = 0 then some i else index)

/-- Read the directory into `buffer_md`. -/
def newfsLoadDirectory : Prog NewFs Bool := do
  let totalblocks ← Prog.gets fun s => s.totalblocks
  NewFs.readBlock (newfsDirectoryBlock totalblocks) mdBuffer

def newfsOpen (filename : Name) : Prog NewFs Int := do
  NewFs.lockP
  let loaded ← newfsLoadDirectory
  if loaded then do
    let found ← newfsFind filename NEWFS_MAX_FILES 0
    match found with
    | some i => do
        let inode ← Prog.gets fun s => s.memory (entryWord i)
        NewFs.unlock inode.toInt
    | none => NewFs.unlock VFS_NOT_FOUND
  else NewFs.unlock VFS_ERROR

/-- The last steps of `newfs_create`: the directory, then the inode. -/
def newfsCreateStore (index : Nat) : Prog NewFs Int := do
  let totalblocks ← Prog.gets fun s => s.totalblocks
  let stored ← NewFs.writeBuffer (newfsDirectoryBlock totalblocks) mdBuffer
  if stored then do
    let inode ← Prog.gets fun s => s.memory (entryWord index)
    let written ← NewFs.writeBuffer inode inodeBuffer
    if written then NewFs.unlock VFS_OK else NewFs.unlock VFS_ERROR
  else NewFs.unlock VFS_ERROR

/-- The allocations of `newfs_create`. -/
def newfsCreateAlloc (index numblocks size : Nat) : Prog NewFs Int := do
  let taken ← newfsBmAlloc (entryWord index)
  if taken then do
    Prog.modify fun s => s.setWord inodeBuffer (BitVec.ofNat 32 size)
    Prog.modify fun s => s.setWord (inodeBuffer + indirWord) 0
    Prog.modify fun s => s.setWord (inodeBuffer + dblIndirWord) 0
    let ready ←
      if NEWFS_BLOCKS_DIRECT + NEWFS_BLOCKS_SINDIR < numblocks then
        newfsAllocZeroed (inodeBuffer + dblIndirWord) 1
      else pure true
    if ready then do
      let done ← newfsAllocBlocks numblocks 0
      if done then newfsCreateStore index else NewFs.unlock VFS_ERROR
    else NewFs.unlock VFS_ERROR
  else NewFs.unlock VFS_ERROR

/-- `newfs_create` with a free entry found. -/
def newfsCreateAt (filename : Name) (index numblocks size : Nat) : Prog NewFs Int := do
  Prog.modify fun s =>
    { s with memory := copyName s.memory (entryNameByte index) filename NEWFS_FILENAME_MAX }
  let loaded ← NewFs.readBlock (BitVec.ofNat 32 NEWFS_ALLOCATION_BLOCK) batBuffer
  if loaded then newfsCreateAlloc index numblocks size else NewFs.unlock VFS_ERROR

/-- The blocks that a file of `size` bytes needs. -/
def newfsNumblocks (size : CInt) : Nat :=
  toUint32 ((toInt32 (size.val + NEWFS_BLOCK_SIZE - 1)).tdiv NEWFS_BLOCK_SIZE)

/-- `newfs_create` up to the end of its search: the value returned, or the entry to use. -/
def newfsCreateSlot (filename : Name) (size : CInt) : Prog NewFs (Int ⊕ Nat) := do
  NewFs.lockP
  if NEWFS_MAX_BLOCKS < newfsNumblocks size then NewFs.unlock (.inl VFS_ERROR)
  else do
    let loaded ← newfsLoadDirectory
    if loaded then do
      let scanned ← newfsCreateScan filename NEWFS_MAX_FILES 0 none
      match scanned with
      | some (some index) => pure (.inr index)
      | _ => NewFs.unlock (.inl VFS_ERROR)
    else NewFs.unlock (.inl VFS_ERROR)

def newfsCreate (filename : Name) (size : CInt) : Prog NewFs Int := do
  let slot ← newfsCreateSlot filename size
  match slot with
  | .inl result => pure result
  | .inr index => newfsCreateAt filename index (newfsNumblocks size) (toUint32 size.val)

/-- The rounds of the loop over the double-indirect block in `newfs_remove`, from entry `i` on.  The
counter is unsigned and goes down by 128. -/
def newfsRemoveDouble : Nat → Nat → Nat → Prog NewFs Bool
  | 0, _, tmpblocks => if 0 < tmpblocks then Prog.stop .outOfBounds else pure true
  | rounds + 1, i, tmpblocks =>
      if 0 < tmpblocks then do
        let done ← newfsRemoveIndir (some i)
        if done then
          newfsRemoveDouble rounds (i + 1) (toUint32 ((tmpblocks : Int) - NEWFS_BLOCKS_SINDIR))
        else pure false
      else pure true

/-- The blocks of a file in the bitmap, cleared; the entry; and then the writes: the old bitmap, the
old bitmap over the directory, and the directory. -/
def newfsRemoveStore (index : Nat) : Prog NewFs Int := do
  let inode ← Prog.gets fun s => s.memory (entryWord index)
  newfsFree inode
  newfsFreeNamed (inodeBuffer + directWord 0) NEWFS_BLOCKS_DIRECT
  Prog.modify fun s => s.setWord (entryWord index) 0
  Prog.modify fun s => { s with memory := memcopy 1 s.memory (entryNameByte index) fun _ => 0 }
  let stored ← newfsStoreBat
  if stored then do
    let totalblocks ← Prog.gets fun s => s.totalblocks
    let written ← NewFs.writeBuffer (newfsDirectoryBlock totalblocks) batBuffer
    if written then do
      let written ← NewFs.writeBuffer (newfsDirectoryBlock totalblocks) mdBuffer
      if written then NewFs.unlock VFS_OK else NewFs.unlock VFS_ERROR
    else NewFs.unlock VFS_ERROR
  else NewFs.unlock VFS_ERROR

/-- `newfs_remove` with the inode in its buffer. -/
def newfsRemoveBlocks (index : Nat) : Prog NewFs Int := do
  let numblocks ← Prog.gets fun s =>
    toUint32 ((s.memory inodeBuffer).toNat + NEWFS_BLOCK_SIZE - 1) / NEWFS_BLOCK_SIZE
  let dbl ← Prog.gets fun s => s.memory (inodeBuffer + dblIndirWord)
  let cleared ←
    if NEWFS_BLOCKS_DIRECT + NEWFS_BLOCKS_SINDIR < numblocks ∧ dbl ≠ 0 then do
      let loaded ← NewFs.readBlock dbl diBuffer
      if loaded then
        newfsRemoveDouble NEWFS_BLOCKS_SINDIR 0
          (numblocks - NEWFS_BLOCKS_DIRECT - NEWFS_BLOCKS_SINDIR)
      else pure false
    else pure true
  if cleared then do
    let indir ← Prog.gets fun s => s.memory (inodeBuffer + indirWord)
    let cleared ← if 0 < indir.toNat then newfsRemoveIndir none else pure true
    if cleared then newfsRemoveStore index else NewFs.unlock VFS_ERROR
  else NewFs.unlock VFS_ERROR

/-- `newfs_remove` with the entry found. -/
def newfsRemoveAt (index : Nat) : Prog NewFs Int := do
  let loaded ← NewFs.readBlock (BitVec.ofNat 32 NEWFS_ALLOCATION_BLOCK) batBuffer
  if loaded then do
    let inode ← Prog.gets fun s => s.memory (entryWord index)
    let loaded ← NewFs.readBlock inode inodeBuffer
    if loaded then newfsRemoveBlocks index else NewFs.unlock VFS_ERROR
  else NewFs.unlock VFS_ERROR

/-- `newfs_remove` up to the end of its search: the value returned, or the entry found. -/
def newfsRemoveSlot (filename : Name) : Prog NewFs (Int ⊕ Nat) := do
  NewFs.lockP
  let loaded ← newfsLoadDirectory
  if loaded then do
    let found ← newfsFind filename NEWFS_MAX_FILES 0
    match found with
    | some index => pure (.inr index)
    | none => NewFs.unlock (.inl VFS_NOT_FOUND)
  else NewFs.unlock (.inl VFS_ERROR)

def newfsRemove (filename : Name) : Prog NewFs Int := do
  let slot ← newfsRemoveSlot filename
  match slot with
  | .inl result => pure result
  | .inr index => newfsRemoveAt index

/-- The loop of `newfs_filecount`. -/
def newfsCount : Nat → Nat → Int → Prog NewFs Int
  | 0, _, count => pure count
  | rounds + 1, i, count => do
      touch i
      let inode ← Prog.gets fun s => s.memory (entryWord i)
      newfsCount rounds (i + 1) (if inode ≠ 0 then count + 1 else count)

def newfsFilecount (dirname : Name) : Prog NewFs Int :=
  if stringcmp dirname [] ≠ 0 then pure (-VFS_NOT_FOUND)
  else do
    NewFs.lockP
    let loaded ← newfsLoadDirectory
    if loaded then do
      let count ← newfsCount NEWFS_MAX_FILES 0 0
      NewFs.unlock count
    else NewFs.unlock VFS_ERROR

/-- The loop of `newfs_file`: the entry whose turn is `idx`. -/
def newfsNth (idx : Int) : Nat → Nat → Int → Prog NewFs (Option Nat)
  | 0, _, _ => pure none
  | rounds + 1, i, count => do
      touch i
      let inode ← Prog.gets fun s => s.memory (entryWord i)
      if inode ≠ 0 then
        if count = idx then pure (some i) else newfsNth idx rounds (i + 1) (count + 1)
      else newfsNth idx rounds (i + 1) count

/-- The result, and the name left in the buffer. -/
def newfsFile (dirname : Name) (idx : CInt) : Prog NewFs (Int × Option Name) :=
  if stringcmp dirname [] ≠ 0 ∨ idx.val < 0 then pure (VFS_NOT_FOUND, none)
  else do
    NewFs.lockP
    let loaded ← newfsLoadDirectory
    if loaded then do
      let found ← newfsNth idx.val NEWFS_MAX_FILES 0 0
      match found with
      | some i => do
          let name ← Prog.gets fun s => nameFrom s.memory (entryNameByte i)
          NewFs.unlock (VFS_ERROR, some (stringcopy name NEWFS_FILENAME_MAX))
      | none => NewFs.unlock (VFS_NOT_FOUND, none)
    else NewFs.unlock (VFS_ERROR, none)

end Buenos.Fs
