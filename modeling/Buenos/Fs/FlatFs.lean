/-
# Fs.FlatFs -- the FlatFS driver

fs/flatfs.c over a `Volume`.  A buffer of the source is a `FlatBuffer`; a field of
the structure it is cast to is a word of it, so `buffer_inode->block[i]` is word
`1 + i` of `.inode`, `block_indir` word 8 and `block_dbl_indir` word 9, and
`buffer_md[j].inode` is word `5 * j` of `.md`.

The helpers return `true` where the source returns VFS_OK.  An index that leaves its
buffer stops the program.  Loops carry the number of rounds left: each is bounded by
its own counter, and the loop of `flatfs_remove`, whose counter can wrap, by the end
of the buffer that it indexes.
-/
import Buenos.Fs.Disk
import Buenos.Fs.Vfs

namespace Buenos.Fs

open Buenos.Lib Buenos.Theory

set_option autoImplicit false

def FLATFS_BLOCK_SIZE : Nat := 512
def FLATFS_ALLOCATION_BLOCK : Nat := 1
def FLATFS_DIRECTORY_BLOCK : Nat := 2
def FLATFS_FILENAME_MAX : Nat := 16
def FLATFS_BLOCKS_DIRECT : Nat := 7
def FLATFS_BLOCKS_SINDIR : Nat := 128
def FLATFS_BLOCKS_DINDIR : Nat := 16384
def FLATFS_MAX_BLOCKS : Nat := FLATFS_BLOCKS_DIRECT + FLATFS_BLOCKS_SINDIR + FLATFS_BLOCKS_DINDIR
def FLATFS_MAX_FILES : Nat := 25

inductive FlatBuffer where
  | inode
  | bat
  | md
  | si
  | di
  deriving DecidableEq, Repr

abbrev Flat := Volume FlatBuffer

def zeroblock : Block := fun _ => 0

/-! ## Words of the buffers -/

/-- Word of `block[i]` in an inode. -/
def directWord (i : Nat) : Nat := 1 + i

def indirWord : Nat := 8
def dblIndirWord : Nat := 9

def entryInode (md : Block) (j : Nat) : Word := md (5 * j)
def entryName (md : Block) (j : Nat) : Name := nameAt md (20 * j + 4)

/-- The first entry with this name, used or not. -/
def findEntry (md : Block) (filename : Name) : Option Nat :=
  (List.range FLATFS_MAX_FILES).find? fun j => stringcmp (entryName md j) filename = 0

/-- The last unused entry: the search keeps overwriting its result. -/
def findSlot (md : Block) : Option Nat :=
  (List.range FLATFS_MAX_FILES).reverse.find? fun j => entryInode md j = 0

/-! ## Helpers -/

/-- Take a block from the bitmap and store its number in word `i` of buffer `b`; -1 is
stored when there is none. -/
def flatfsBmAlloc (b : FlatBuffer) (i : Nat) : Prog Flat Bool := fun s =>
  match bitmapFindnset (s.buffer .bat) s.totalblocks with
  | some (p, bat) => .returned (true, (s.setBuffer .bat bat).setWord b i (BitVec.ofNat 32 p))
  | none => .returned (false, { s.setWord b i 0xffffffff#32 with refused := s.refused + 1 })

/-- Take and zero a block for each of `n` words of buffer `b`, from word `i` on. -/
def allocZeroed (b : FlatBuffer) : Nat → Nat → Prog Flat Bool
  | _, 0 => pure true
  | i, n + 1 => do
      let taken ← flatfsBmAlloc b i
      if taken then do
        let block ← Prog.gets fun s => s.buffer b i
        let written ← writeBlock block zeroblock
        if written then allocZeroed b (i + 1) n else pure false
      else pure false

/-- Zero the words `lo`, .., `hi - 1` of a buffer. -/
def clearWords (b : FlatBuffer) (lo hi : Nat) : Prog Flat Unit :=
  Prog.modify fun s => s.setBuffer b fun i => if lo ≤ i ∧ i < hi then 0 else s.buffer b i

/-- Where a single-indirect block is named; `none` is the `todbl` of -1. -/
def indBuffer (todbl : Option Nat) : FlatBuffer := if todbl.isSome then .di else .inode

def indWord (todbl : Option Nat) : Nat := todbl.getD indirWord

/-- The part of `flatfs_alloc_indir` that fills the single-indirect block. -/
def fillIndir (todbl : Option Nat) (numblocks offset : Nat) : Prog Flat Bool := do
  let ind ← Prog.gets fun s => s.buffer (indBuffer todbl) (indWord todbl)
  let loaded ← readBlock ind .si
  if loaded then do
    let filled ← allocZeroed .si offset numblocks
    if filled then do
      clearWords .si (offset + numblocks) FLATFS_BLOCKS_SINDIR
      let ind ← Prog.gets fun s => s.buffer (indBuffer todbl) (indWord todbl)
      writeBuffer ind .si
    else pure false
  else pure false

def flatfsAllocIndir (todbl : Option Nat) (numblocks offset : Nat) : Prog Flat Bool := do
  Prog.assert (fun _ => indWord todbl < FLATFS_BLOCKS_SINDIR) .outOfBounds
  let ind ← Prog.gets fun s => s.buffer (indBuffer todbl) (indWord todbl)
  let got ← if ind = 0 then flatfsBmAlloc (indBuffer todbl) (indWord todbl) else pure true
  if got then fillIndir todbl numblocks offset else pure false

/-- The loop over the double-indirect block; only the first round has an offset. -/
def allocDouble : Nat → Nat → Nat → Nat → Prog Flat Bool
  | 0, _, _, _ => pure true
  | rounds + 1, i, numblocks, offset =>
      if numblocks = 0 then pure true
      else do
        let towrite := min numblocks (FLATFS_BLOCKS_SINDIR - offset)
        let done ← flatfsAllocIndir (some i) towrite offset
        if done then allocDouble rounds (i + 1) (numblocks - towrite) 0 else pure false

def storeBat : Prog Flat Bool := writeBuffer (BitVec.ofNat 32 FLATFS_ALLOCATION_BLOCK) .bat

/-- The double-indirect part of `flatfs_alloc_blocks`, and the bitmap. -/
def allocBlocksDouble (numblocks offset : Nat) : Prog Flat Bool :=
  if 0 < numblocks then do
    let dbl ← Prog.gets fun s => s.buffer .inode dblIndirWord
    let loaded ← readBlock dbl .di
    if loaded then do
      let offset := offset - (FLATFS_BLOCKS_DIRECT + FLATFS_BLOCKS_SINDIR)
      let done ← allocDouble numblocks (offset / FLATFS_BLOCKS_SINDIR) numblocks
        (offset % FLATFS_BLOCKS_SINDIR)
      if done then do
        let dbl ← Prog.gets fun s => s.buffer .inode dblIndirWord
        let written ← writeBuffer dbl .di
        if written then storeBat else pure false
      else pure false
    else pure false
  else storeBat

/-- The single-indirect part of `flatfs_alloc_blocks`, and what follows. -/
def allocBlocksSingle (numblocks offset : Nat) : Prog Flat Bool :=
  if 0 < numblocks ∧ offset < FLATFS_BLOCKS_DIRECT + FLATFS_BLOCKS_SINDIR then do
    let tmpblocks := min numblocks (FLATFS_BLOCKS_SINDIR + FLATFS_BLOCKS_DIRECT - offset)
    let done ← flatfsAllocIndir none tmpblocks (offset - FLATFS_BLOCKS_DIRECT)
    if done then
      allocBlocksDouble (numblocks - tmpblocks) (FLATFS_BLOCKS_DIRECT + FLATFS_BLOCKS_SINDIR)
    else pure false
  else allocBlocksDouble numblocks offset

/-- Allocate `numblocks` blocks to the file in the inode buffer, from logical block
`offset` on. -/
def flatfsAllocBlocks (numblocks offset : Nat) : Prog Flat Bool :=
  if offset < FLATFS_BLOCKS_DIRECT then do
    let tmpblocks := min (FLATFS_BLOCKS_DIRECT - offset) numblocks
    let done ← allocZeroed .inode (directWord offset) tmpblocks
    if done then do
      clearWords .inode (directWord (tmpblocks + offset)) (directWord FLATFS_BLOCKS_DIRECT)
      allocBlocksSingle (numblocks - tmpblocks) FLATFS_BLOCKS_DIRECT
    else pure false
  else allocBlocksSingle numblocks offset

/-- The bitmap entry of `block` is cleared. -/
def flatfsFree (block : Word) : Prog Flat Unit := do
  Prog.assert (fun _ => block.toNat < 0x80000000) .assertion
  Prog.assert (fun _ => block.toNat < 8 * FLATFS_BLOCK_SIZE) .outOfBounds
  Prog.modify fun s => s.setBuffer .bat (bitmapSet (s.buffer .bat) block.toNat false)

/-- Free the blocks that `n` words of buffer `b` name, from word `i` on. -/
def freeNamed (b : FlatBuffer) : Nat → Nat → Prog Flat Unit
  | _, 0 => pure ()
  | i, n + 1 => do
      let block ← Prog.gets fun s => s.buffer b i
      if 0 < block.toNat then do
        flatfsFree block
        freeNamed b (i + 1) n
      else freeNamed b (i + 1) n

def flatfsRemoveIndir (todbl : Option Nat) : Prog Flat Bool := do
  Prog.assert (fun _ => indWord todbl < FLATFS_BLOCKS_SINDIR) .outOfBounds
  let ind ← Prog.gets fun s => s.buffer (indBuffer todbl) (indWord todbl)
  let loaded ← readBlock ind .si
  if loaded then do
    freeNamed .si 0 FLATFS_BLOCKS_SINDIR
    pure true
  else pure false

/-- The physical block of a logical block.  `indirbuf` is zero when the
single-indirect buffer has to be read in. -/
def flatfsGetblock (block indirbuf : Nat) : Prog Flat Word :=
  if block < FLATFS_BLOCKS_DIRECT then Prog.gets fun s => s.buffer .inode (directWord block)
  else if block - FLATFS_BLOCKS_DIRECT < FLATFS_BLOCKS_SINDIR then do
    let ind ← Prog.gets fun s => s.buffer .inode indirWord
    let loaded ← if indirbuf = 0 then readBlock ind .si else pure true
    if loaded then Prog.gets fun s => s.buffer .si (block - FLATFS_BLOCKS_DIRECT)
    else pure (BitVec.ofInt 32 VFS_ERROR)
  else do
    let block := block - FLATFS_BLOCKS_DIRECT - FLATFS_BLOCKS_SINDIR
    Prog.assert (fun _ => indirbuf ≠ 0 || block / FLATFS_BLOCKS_SINDIR < FLATFS_BLOCKS_SINDIR)
      .outOfBounds
    let ind ← Prog.gets fun s => s.buffer .di (block / FLATFS_BLOCKS_SINDIR)
    let loaded ← if indirbuf = 0 then readBlock ind .si else pure true
    if loaded then Prog.gets fun s => s.buffer .si (block % FLATFS_BLOCKS_SINDIR)
    else pure (BitVec.ofInt 32 VFS_ERROR)

/-- `(b - FLATFS_BLOCKS_DIRECT) % FLATFS_BLOCKS_SINDIR` in unsigned arithmetic. -/
def indirPhase (b : Nat) : Nat := toUint32 ((b : Int) - FLATFS_BLOCKS_DIRECT) % FLATFS_BLOCKS_SINDIR

/-- Read in the double-indirect block, if the file has one. -/
def loadDouble : Prog Flat Bool := do
  let dbl ← Prog.gets fun s => s.buffer .inode dblIndirWord
  if 0 < dbl.toNat then readBlock dbl .di else pure true

/-! ## The directory operations -/

def flatfsUnmount : Prog Flat Int := do
  lockP
  pure VFS_OK

def flatfsOpen (filename : Name) : Prog Flat Int := do
  lockP
  let loaded ← readBlock (BitVec.ofNat 32 FLATFS_DIRECTORY_BLOCK) .md
  if loaded then do
    let md ← Prog.gets fun s => s.buffer .md
    match findEntry md filename with
    | some j => unlock (toInt32 (entryInode md j).toNat)
    | none => unlock VFS_NOT_FOUND
  else unlock VFS_ERROR

def flatfsClose (_fileid : Int) : Prog Flat Int := pure VFS_OK

/-- The last steps of `flatfs_create`: the directory, then the inode. -/
def createStore (index : Nat) : Prog Flat Int := do
  let stored ← writeBuffer (BitVec.ofNat 32 FLATFS_DIRECTORY_BLOCK) .md
  if stored then do
    let inode ← Prog.gets fun s => entryInode (s.buffer .md) index
    let written ← writeBuffer inode .inode
    if written then unlock VFS_OK else unlock VFS_ERROR
  else unlock VFS_ERROR

/-- The allocations of `flatfs_create`, with the bitmap in its buffer. -/
def createAlloc (index numblocks size : Nat) : Prog Flat Int := do
  let taken ← flatfsBmAlloc .md (5 * index)
  if taken then do
    Prog.modify fun s => s.setWord .inode 0 (BitVec.ofNat 32 size)
    Prog.modify fun s => s.setWord .inode indirWord 0
    Prog.modify fun s => s.setWord .inode dblIndirWord 0
    let ready ←
      if FLATFS_BLOCKS_DIRECT + FLATFS_BLOCKS_SINDIR < numblocks then
        allocZeroed .inode dblIndirWord 1
      else pure true
    if ready then do
      let done ← flatfsAllocBlocks numblocks 0
      if done then createStore index else unlock VFS_ERROR
    else unlock VFS_ERROR
  else unlock VFS_ERROR

def flatfsCreate (filename : Name) (size : CInt) : Prog Flat Int := do
  let numblocks := toUint32 ((toInt32 (size.val + FLATFS_BLOCK_SIZE - 1)).tdiv FLATFS_BLOCK_SIZE)
  lockP
  if FLATFS_MAX_BLOCKS < numblocks then unlock VFS_ERROR
  else do
    let loaded ← readBlock (BitVec.ofNat 32 FLATFS_DIRECTORY_BLOCK) .md
    if loaded then do
      let md ← Prog.gets fun s => s.buffer .md
      match findEntry md filename, findSlot md with
      | none, some index => do
          Prog.modify fun s => s.setBuffer .md
            (copyName (s.buffer .md) (20 * index + 4) filename FLATFS_FILENAME_MAX)
          let loaded ← readBlock (BitVec.ofNat 32 FLATFS_ALLOCATION_BLOCK) .bat
          if loaded then createAlloc index numblocks (toUint32 size.val) else unlock VFS_ERROR
      | _, _ => unlock VFS_ERROR
    else unlock VFS_ERROR

/-- The rounds of the loop over the double-indirect block in `flatfs_remove`, from
entry `i` on.  The counter is unsigned and goes down by 128. -/
def removeDouble : Nat → Nat → Nat → Prog Flat Bool
  | 0, _, tmpblocks => if 0 < tmpblocks then Prog.stop .outOfBounds else pure true
  | rounds + 1, i, tmpblocks =>
      if 0 < tmpblocks then do
        let done ← flatfsRemoveIndir (some i)
        if done then
          removeDouble rounds (i + 1) (toUint32 ((tmpblocks : Int) - FLATFS_BLOCKS_SINDIR))
        else pure false
      else pure true

/-- The blocks of a file in the bitmap, cleared; then the entry and both tables. -/
def removeStore (index : Nat) : Prog Flat Int := do
  let inode ← Prog.gets fun s => entryInode (s.buffer .md) index
  flatfsFree inode
  freeNamed .inode (directWord 0) FLATFS_BLOCKS_DIRECT
  Prog.modify fun s => s.setWord .md (5 * index) 0
  Prog.modify fun s => s.setBuffer .md (memcopy 1 (s.buffer .md) (20 * index + 4) fun _ => 0)
  let stored ← storeBat
  if stored then do
    let written ← writeBuffer (BitVec.ofNat 32 FLATFS_DIRECTORY_BLOCK) .md
    if written then unlock VFS_OK else unlock VFS_ERROR
  else unlock VFS_ERROR

/-- `flatfs_remove` with the bitmap and the inode in their buffers. -/
def removeBlocks (index : Nat) : Prog Flat Int := do
  let numblocks ← Prog.gets fun s =>
    toUint32 ((s.buffer .inode 0).toNat + FLATFS_BLOCK_SIZE - 1) / FLATFS_BLOCK_SIZE
  let dbl ← Prog.gets fun s => s.buffer .inode dblIndirWord
  let cleared ←
    if FLATFS_BLOCKS_DIRECT + FLATFS_BLOCKS_SINDIR < numblocks ∧ dbl ≠ 0 then do
      let loaded ← readBlock dbl .di
      if loaded then
        removeDouble FLATFS_BLOCKS_SINDIR 0
          (numblocks - FLATFS_BLOCKS_DIRECT - FLATFS_BLOCKS_SINDIR)
      else pure false
    else pure true
  if cleared then do
    let indir ← Prog.gets fun s => s.buffer .inode indirWord
    let cleared ← if 0 < indir.toNat then flatfsRemoveIndir none else pure true
    if cleared then removeStore index else unlock VFS_ERROR
  else unlock VFS_ERROR

def flatfsRemove (filename : Name) : Prog Flat Int := do
  lockP
  let loaded ← readBlock (BitVec.ofNat 32 FLATFS_DIRECTORY_BLOCK) .md
  if loaded then do
    let md ← Prog.gets fun s => s.buffer .md
    match findEntry md filename with
    | none => unlock VFS_NOT_FOUND
    | some index => do
        let loaded ← readBlock (BitVec.ofNat 32 FLATFS_ALLOCATION_BLOCK) .bat
        if loaded then do
          let loaded ← readBlock (entryInode md index) .inode
          if loaded then removeBlocks index else unlock VFS_ERROR
        else unlock VFS_ERROR
  else unlock VFS_ERROR

/-! ## Reading -/

/-- The loop of `flatfs_read`: `n` blocks to go, block `b` next, `read` bytes and `out`
in the caller's buffer so far. -/
def readLoop (b1 : Nat) (b2 bufsize offset : Int) :
    Nat → Nat → Int → List Byte → Prog Flat (Option (Int × List Byte))
  | 0, _, read, out => pure (some (read, out))
  | n + 1, b, read, out => do
      let block ← flatfsGetblock b (indirPhase b)
      let loaded ← readBlock block .bat
      if loaded then do
        let bat ← Prog.gets fun s => s.buffer .bat
        if b = b1 then do
          let pos := (offset % FLATFS_BLOCK_SIZE).toNat
          let read := min ((FLATFS_BLOCK_SIZE : Int) - pos) bufsize
          readLoop b1 b2 bufsize offset n (b + 1) read
            (out ++ (List.range read.toNat).map fun k => bat.byte (pos + k))
        else if (b : Int) = b2 then
          readLoop b1 b2 bufsize offset n (b + 1) bufsize
            (out ++ (List.range (bufsize - read).toNat).map fun k => bat.byte k)
        else
          readLoop b1 b2 bufsize offset n (b + 1) (read + FLATFS_BLOCK_SIZE)
            (out ++ (List.range FLATFS_BLOCK_SIZE).map fun k => bat.byte k)
      else pure none

/-- `flatfs_read` of `bufsize` bytes, within the file in the inode buffer. -/
def readBlocks (bufsize offset : Int) : Prog Flat (Int × List Byte) := do
  let b1 := (offset.tdiv FLATFS_BLOCK_SIZE).toNat
  let b2 := (toInt32 (offset + bufsize - 1)).tdiv FLATFS_BLOCK_SIZE
  let loaded ← loadDouble
  if loaded then do
    let _ ← flatfsGetblock b1 0
    let result ← readLoop b1 b2 bufsize offset (b2 + 1 - b1).toNat b1 0 []
    match result with
    | some r => unlock r
    | none => unlock (VFS_ERROR, [])
  else unlock (VFS_ERROR, [])

def flatfsRead (fileid bufsize offset : CInt) : Prog Flat (Int × List Byte) := do
  lockP
  let totalblocks ← Prog.gets fun s => s.totalblocks
  if fileid.val < 2 ∨ (totalblocks : Int) < fileid.val then unlock (VFS_ERROR, [])
  else do
    let loaded ← readBlock (BitVec.ofInt 32 fileid.val) .inode
    if loaded then do
      let filesize ← Prog.gets fun s => toInt32 (s.buffer .inode 0).toNat
      if offset.val < 0 ∨ filesize < offset.val then unlock (VFS_INVALID_PARAMS, [])
      else do
        let bufsize := min bufsize.val (filesize - offset.val)
        if bufsize = 0 then unlock (0, []) else readBlocks bufsize offset.val
    else unlock (VFS_ERROR, [])

/-! ## Writing -/

/-- The loop of `flatfs_write`: `n` blocks to go, block `b` next, `written` bytes of
the caller's buffer done. -/
def writeLoop (b1 b2 : Nat) (buffer : Nat → Byte) (datasize offset : Int) :
    Nat → Nat → Int → Prog Flat (Option Int)
  | 0, _, written => pure (some written)
  | n + 1, b, written => do
      let block ← flatfsGetblock b (indirPhase b)
      if b = b1 then do
        let pos := (offset % FLATFS_BLOCK_SIZE).toNat
        let written := min ((FLATFS_BLOCK_SIZE : Int) - pos) datasize
        let loaded ← readBlock block .bat
        if loaded then do
          Prog.modify fun s => s.setBuffer .bat
            (memcopy written.toNat (s.buffer .bat) pos buffer)
          let stored ← writeBuffer block .bat
          if stored then writeLoop b1 b2 buffer datasize offset n (b + 1) written else pure none
        else pure none
      else if b = b2 then do
        let loaded ← readBlock block .bat
        if loaded then do
          Prog.modify fun s => s.setBuffer .bat
            (memcopy (datasize - written).toNat (s.buffer .bat) 0
              fun k => buffer (written.toNat + k))
          let stored ← writeBuffer block .bat
          if stored then writeLoop b1 b2 buffer datasize offset n (b + 1) datasize else pure none
        else pure none
      else do
        Prog.modify fun s => s.setBuffer .bat
          (memcopy FLATFS_BLOCK_SIZE (s.buffer .bat) 0 fun k => buffer (written.toNat + k))
        let stored ← writeBuffer block .bat
        if stored then
          writeLoop b1 b2 buffer datasize offset n (b + 1) (written + FLATFS_BLOCK_SIZE)
        else pure none

/-- The last block of a file of `filesize` bytes, in unsigned arithmetic. -/
def lastBlock (filesize : Nat) : Nat :=
  if filesize = 0 then 0 else toUint32 ((filesize : Int) - 1) / FLATFS_BLOCK_SIZE

/-- What `flatfs_write` allocates before it writes up to block `b2`.  The result of
`flatfs_alloc_blocks` is not looked at. -/
def writeGrow (b2 : Nat) : Prog Flat Bool := do
  let filesize ← Prog.gets fun s => (s.buffer .inode 0).toNat
  if lastBlock filesize < b2 ∨ filesize = 0 then do
    let loaded ← readBlock (BitVec.ofNat 32 FLATFS_ALLOCATION_BLOCK) .bat
    if loaded then do
      let first ← if filesize = 0 then allocZeroed .inode (directWord 0) 1 else pure true
      if first then do
        let ready ←
          if FLATFS_BLOCKS_DIRECT + FLATFS_BLOCKS_SINDIR ≤ b2 ∧
              lastBlock filesize < FLATFS_BLOCKS_DIRECT + FLATFS_BLOCKS_SINDIR then
            allocZeroed .inode dblIndirWord 1
          else pure true
        if ready then
          if lastBlock filesize < b2 then do
            let _ ← flatfsAllocBlocks (b2 - lastBlock filesize) (lastBlock filesize + 1)
            pure true
          else storeBat
        else pure false
      else pure false
    else pure false
  else pure true

/-- The new file size, if the file has grown. -/
def writeSize (fileid : Word) (filesize : Nat) (written : Int) : Prog Flat Int := do
  let old ← Prog.gets fun s => (s.buffer .inode 0).toNat
  if old < filesize then do
    Prog.modify fun s => s.setWord .inode 0 (BitVec.ofNat 32 filesize)
    let stored ← writeBuffer fileid .inode
    if stored then unlock written else unlock VFS_ERROR
  else unlock written

/-- `flatfs_write` at a position inside the file in the inode buffer. -/
def writeBlocks (fileid : Word) (buffer : Nat → Byte) (datasize offset : Int) :
    Prog Flat Int := do
  let b1 := (offset.tdiv FLATFS_BLOCK_SIZE).toNat
  let b2 := toUint32 ((toInt32 (offset + datasize - 1)).tdiv FLATFS_BLOCK_SIZE)
  let loaded ← loadDouble
  if loaded then do
    let grown ← writeGrow b2
    if grown then do
      let _ ← flatfsGetblock b1 0
      let result ← writeLoop b1 b2 buffer datasize offset (b2 + 1 - b1) b1 0
      match result with
      | some written => writeSize fileid (toUint32 (offset + datasize)) written
      | none => unlock VFS_ERROR
    else unlock VFS_ERROR
  else unlock VFS_ERROR

/-- `buffer k` is byte `k` of the caller's buffer. -/
def flatfsWrite (fileid : CInt) (buffer : Nat → Byte) (datasize offset : CInt) :
    Prog Flat Int := do
  lockP
  let totalblocks ← Prog.gets fun s => s.totalblocks
  if fileid.val < 2 ∨ (totalblocks : Int) < fileid.val ∨ offset.val < 0 then
    unlock VFS_INVALID_PARAMS
  else if datasize.val = 0 then unlock 0
  else do
    let loaded ← readBlock (BitVec.ofInt 32 fileid.val) .inode
    if loaded then do
      let filesize ← Prog.gets fun s => toInt32 (s.buffer .inode 0).toNat
      if filesize < offset.val then unlock VFS_ERROR
      else writeBlocks (BitVec.ofInt 32 fileid.val) buffer datasize.val offset.val
    else unlock VFS_ERROR

/-! ## Free space and the directory -/

/-- The bytes that the bitmap leaves free, as an `int`. -/
def freeBytes (totalblocks : Nat) (bat : Block) : Int :=
  let allocated := (List.range totalblocks).countP fun i => bitmapGet bat i
  toInt32 (((totalblocks : Int) - allocated) * FLATFS_BLOCK_SIZE)

def flatfsGetfree : Prog Flat Int := do
  lockP
  let loaded ← readBlock (BitVec.ofNat 32 FLATFS_ALLOCATION_BLOCK) .bat
  if loaded then do
    let free ← Prog.gets fun s => freeBytes s.totalblocks (s.buffer .bat)
    unlock free
  else unlock VFS_ERROR

/-- The entries in use, in table order. -/
def usedEntries (md : Block) : List Nat :=
  (List.range FLATFS_MAX_FILES).filter fun j => entryInode md j ≠ 0

/-- The one directory has the empty name. -/
def flatfsFilecount (dirname : Name) : Prog Flat Int :=
  if stringcmp dirname [] ≠ 0 then pure (-VFS_NOT_FOUND)
  else do
    lockP
    let loaded ← readBlock (BitVec.ofNat 32 FLATFS_DIRECTORY_BLOCK) .md
    if loaded then do
      let count ← Prog.gets fun s => ((usedEntries (s.buffer .md)).length : Int)
      unlock count
    else unlock VFS_ERROR

/-- The name of a file that is found is left in the caller's buffer, and the result is
VFS_ERROR all the same. -/
def flatfsFile (dirname : Name) (idx : CInt) : Prog Flat (Int × Name) :=
  if stringcmp dirname [] ≠ 0 ∨ idx.val < 0 then pure (VFS_NOT_FOUND, [])
  else do
    lockP
    let loaded ← readBlock (BitVec.ofNat 32 FLATFS_DIRECTORY_BLOCK) .md
    if loaded then do
      let md ← Prog.gets fun s => s.buffer .md
      match (usedEntries md)[idx.val.toNat]? with
      | some j => unlock (VFS_ERROR, stringcopy (entryName md j) FLATFS_FILENAME_MAX)
      | none => unlock (VFS_NOT_FOUND, [])
    else unlock (VFS_ERROR, [])

def flatfsMkdir (_dirname : Name) : Prog Flat Int := pure VFS_NOT_SUPPORTED

def flatfsRmdir (_dirname : Name) : Prog Flat Int := pure VFS_NOT_SUPPORTED

end Buenos.Fs
