/-
# Util.Tfstool -- the TFS tool

util/tfstool.c, which works on a disk image in a file of the host.  The image is a
`HostFile`; the other files of the host are the bytes that a command reads or writes.  All
host calls succeed except a seek to a negative position, and a command that ends with
`exit(EXIT_FAILURE)` returns `false` or `none`, with the image as it is by then.

The tool keeps words in network order and converts them to the order of the host, which is
a parameter.  An array on the stack holds whatever it holds when the function starts.
-/
import Buenos.Fs.Tfs

namespace Buenos.Util

open Buenos.Lib Buenos.Theory Buenos.Fs

set_option autoImplicit false

def TFS_MAGIC : Nat := 3745
def TFS_HEADER_BLOCK : Nat := 0
def TFS_VOLUMENAME_MAX : Nat := 16
def TFS_BLOCKS_MAX : Nat := TFS_BLOCK_SIZE / 4 - 1
def TFS_MAX_FILESIZE : Nat := TFS_BLOCK_SIZE * TFS_BLOCKS_MAX

/-! ## Words of the host -/

inductive ByteOrder where
  | little
  | big
  deriving DecidableEq, Repr

/-- An array of bytes, such as a `block_t`. -/
abbrev Bytes := Nat → Byte

/-- The place in memory of byte `k` of a word, the least significant one first. -/
def ByteOrder.place : ByteOrder → Nat → Nat
  | .little, k => k
  | .big, k => 3 - k

/-- Word `i` of an array, as the host reads it. -/
def hostWord (order : ByteOrder) (data : Bytes) (i : Nat) : Word :=
  data (4 * i + order.place 3) ++ data (4 * i + order.place 2) ++ data (4 * i + order.place 1) ++
    data (4 * i + order.place 0)

def setHostWord (order : ByteOrder) (data : Bytes) (i : Nat) (w : Word) : Bytes := fun k =>
  if k / 4 = i then w.extractLsb' (8 * order.place (k % 4)) 8 else data k

def ntohl : ByteOrder → Word → Word
  | .little, w =>
      w.extractLsb' 0 8 ++ w.extractLsb' 8 8 ++ w.extractLsb' 16 8 ++ w.extractLsb' 24 8
  | .big, w => w

def htonl (order : ByteOrder) (w : Word) : Word := ntohl order w

/-! ## The disk image -/

/-- A file of the host. -/
structure HostFile where
  size : Nat
  byte : Bytes

/-- The file after `n` bytes were written at `pos`; a gap before them reads as zeros. -/
def HostFile.write (file : HostFile) (pos n : Nat) (data : Bytes) : HostFile where
  size := max file.size (pos + n)
  byte k :=
    if pos ≤ k ∧ k < pos + n then data (k - pos) else if k < file.size then file.byte k else 0

/-- The position of a block, whose number is passed as an `int`: a number from 2^31 on is
negative, and the seek fails. -/
def seekBlock (block : Nat) : Option Nat :=
  if 0x80000000 ≤ block then none else some (block * TFS_BLOCK_SIZE)

/-- The array after `read_block`; past the end of the file it is left as it was. -/
def readBlock (data : Bytes) (block : Nat) : Prog HostFile (Option Bytes) := fun disk =>
  match seekBlock block with
  | none => .returned (none, disk)
  | some pos =>
      .returned (some fun k =>
        if k < TFS_BLOCK_SIZE ∧ pos + k < disk.size then disk.byte (pos + k) else data k, disk)

def writeBlock (data : Bytes) (block : Nat) : Prog HostFile Bool := fun disk =>
  match seekBlock block with
  | none => .returned (false, disk)
  | some pos => .returned (true, disk.write pos TFS_BLOCK_SIZE data)

/-- `write_block` of no data. -/
def writeNull (block : Nat) : Prog HostFile Bool := writeBlock (fun _ => 0) block

def tfstoolNumblocks (disk : HostFile) : Nat := disk.size / TFS_BLOCK_SIZE

/-! ## The bitmap -/

def bitmapGet (order : ByteOrder) (bitmap : Bytes) (pos : Nat) : Bool :=
  (ntohl order (hostWord order bitmap (pos / 32))).getLsbD (pos % 32)

def bitmapSet (order : ByteOrder) (bitmap : Bytes) (pos : Nat) (value : Bool) : Bytes :=
  let w := ntohl order (hostWord order bitmap (pos / 32))
  setHostWord order bitmap (pos / 32)
    (htonl order (if value then w ||| (1#32 <<< (pos % 32)) else w &&& ~~~(1#32 <<< (pos % 32))))

/-- The first clear bit below `l`, -1 if there is none, and the bitmap with it set. -/
def bitmapFindnset (order : ByteOrder) (bitmap : Bytes) (l : Int) : Int × Bytes :=
  match (List.range l.toNat).find? fun i => !bitmapGet order bitmap i with
  | some i => (i, bitmapSet order bitmap i true)
  | none => (-1, bitmap)

/-! ## Names -/

/-- Of two arrays, up to `n` bytes of each. -/
def strncmp : Nat → Bytes → Bytes → Int
  | 0, _, _ => 0
  | n + 1, a, b =>
      if a 0 ≠ b 0 then ((a 0).toNat : Int) - (b 0).toNat
      else if a 0 = 0 then 0
      else strncmp n (fun k => a (k + 1)) fun k => b (k + 1)

/-- `strncpy` to byte `pos` of an array: characters, then zeros, `n` bytes in all. -/
def strncpy (data : Bytes) (pos : Nat) (source : Name) (n : Nat) : Bytes := fun k =>
  if pos ≤ k ∧ k < pos + n then charAt source (k - pos) else data k

/-- `direntry[i].name` against a name. -/
def nameCompare (masterDir : Bytes) (i : Nat) (name : Name) : Int :=
  strncmp TFS_FILENAME_MAX (fun k => masterDir (20 * i + 4 + k)) (charAt name)

/-! ## Making a volume -/

/-- Empty blocks from block `i` on, `n` of them. -/
def writeNulls : Nat → Nat → Prog HostFile Bool
  | _, 0 => pure true
  | i, n + 1 => do
      let written ← writeNull i
      if written then writeNulls (i + 1) n else pure false

/-- `present` is whether the file exists.  The volume name is an array of
`TFS_VOLUMENAME_MAX` bytes. -/
def tfstoolCreatevol (order : ByteOrder) (present : Bool) (size : CInt) (volumename : Bytes) :
    Prog HostFile Bool :=
  if present then pure false
  else if size.val < 3 then pure false
  else do
    Prog.modify fun _ => { size := 0, byte := fun _ => 0 }
    let header : Bytes := setHostWord order (fun _ => 0) 0 (htonl order (BitVec.ofNat 32 TFS_MAGIC))
    let header : Bytes := fun k =>
      if 4 ≤ k ∧ k < 4 + TFS_VOLUMENAME_MAX then volumename (k - 4) else header k
    let written ← writeBlock header TFS_HEADER_BLOCK
    if written then do
      let allocation := bitmapSet order (fun _ => 0) TFS_HEADER_BLOCK true
      let allocation := bitmapSet order allocation TFS_ALLOCATION_BLOCK true
      let allocation := bitmapSet order allocation TFS_DIRECTORY_BLOCK true
      let written ← writeBlock allocation TFS_ALLOCATION_BLOCK
      if written then do
        let written ← writeNull TFS_DIRECTORY_BLOCK
        if written then writeNulls 3 (size.val - 3).toNat else pure false
      else pure false
    else pure false

/-! ## Copying a file to the volume -/

/-- The block that `bitmap_findnset` gives, if the tool goes on with it, and the bitmap. -/
def takeBlock (order : ByteOrder) (numBlocks : Nat) (bat : Bytes) : Option Nat × Bytes :=
  let result := bitmapFindnset order bat (toInt32 numBlocks)
  let bnum := toUint32 result.1
  (if 2 < bnum ∧ bnum < numBlocks then some bnum else none, result.2)

/-- What the loop of `tfstool_write` changes; `source` is what is left of the source file. -/
structure WriteState where
  filesize : Nat
  source : List Byte
  data : Bytes
  bat : Bytes
  inode : Bytes

/-- After the next block of the source file went to block `bnum`, entry `i` of the file. -/
def WriteState.next (order : ByteOrder) (w : WriteState) (i bnum : Nat) (bat : Bytes) :
    WriteState where
  filesize := toUint32 (w.filesize + min TFS_BLOCK_SIZE w.source.length : Nat)
  source := w.source.drop TFS_BLOCK_SIZE
  data := fun k =>
    if k < min TFS_BLOCK_SIZE w.source.length then w.source.getD k 0 else w.data k
  bat := bat
  inode := setHostWord order w.inode (directWord i) (htonl order (BitVec.ofNat 32 bnum))

/-- The loop of `tfstool_write`: `n` rounds to go, entry `i` of the file next; `take` is
`takeBlock` on this image.  The result is `writeok`. -/
def writeLoop (order : ByteOrder) (take : Bytes → Option Nat × Bytes) :
    Nat → Nat → WriteState → Prog HostFile (Option (Bool × WriteState))
  | 0, _, w => pure (some (true, w))
  | n + 1, i, w =>
      if w.filesize < TFS_MAX_FILESIZE then
        match take w.bat with
        | (some bnum, bat) => do
            let next := w.next order i bnum bat
            let written ← writeBlock next.data bnum
            if written then
              -- `feof`: less than a whole block was left
              if w.source.length < TFS_BLOCK_SIZE then pure (some (true, next))
              else writeLoop order take n (i + 1) next
            else pure none
        | (none, bat) => pure (some (false, { w with bat := bat }))
      else pure (some (true, w))

/-- The tables are written: inode, directory, bitmap. -/
def storeTables (order : ByteOrder) (masterDir : Bytes) (index inodeBnum : Nat) (target : Name)
    (w : WriteState) : Prog HostFile Bool := do
  let inode := setHostWord order w.inode 0 (htonl order (BitVec.ofNat 32 w.filesize))
  let written ← writeBlock inode inodeBnum
  if written then do
    let masterDir := setHostWord order masterDir (5 * index) (htonl order (BitVec.ofNat 32 inodeBnum))
    let masterDir := strncpy masterDir (20 * index + 4) target TFS_FILENAME_MAX
    let written ← writeBlock masterDir TFS_DIRECTORY_BLOCK
    if written then writeBlock w.bat TFS_ALLOCATION_BLOCK else pure false
  else pure false

/-- `tfstool_write` with the directory and the bitmap in their arrays. -/
def writeFile (order : ByteOrder) (take : Bytes → Option Nat × Bytes) (numBlocks : Nat)
    (data masterDir bat : Bytes) (index : Nat) (source : List Byte) (target : Name) :
    Prog HostFile Bool :=
  match take bat with
  | (some inodeBnum, bat) => do
      let result ← writeLoop order take numBlocks 0
        { filesize := 0, source := source, data := data, bat := bat, inode := fun _ => 0 }
      match result with
      | none => pure false
      | some (writeok, w) =>
          if w.filesize ≠ source.length then pure false
          else if writeok then storeTables order masterDir index inodeBnum target w
          else pure false
  | (none, _) => pure false

/-- `source` is the contents of the source file; `masterDir`, `bat` and `data` are the
arrays that the function does not initialize. -/
def tfstoolWrite (order : ByteOrder) (masterDir bat data : Bytes) (source : List Byte)
    (target : Name) : Prog HostFile Bool := do
  let directory ← readBlock masterDir TFS_DIRECTORY_BLOCK
  match directory with
  | none => pure false
  | some masterDir =>
      if (List.range TFS_MAX_FILES).any fun i => nameCompare masterDir i target = 0 then pure false
      else
        match (List.range TFS_MAX_FILES).find? fun i => hostWord order masterDir (5 * i) = 0 with
        | none => pure false
        | some index => do
            let bitmap ← readBlock bat TFS_ALLOCATION_BLOCK
            match bitmap with
            | none => pure false
            | some bat => do
                let numBlocks ← Prog.gets fun disk => toUint32 (tfstoolNumblocks disk : Nat)
                writeFile order (takeBlock order numBlocks) numBlocks data masterDir bat index source
                  target

/-! ## Copying a file from the volume -/

/-- The loop of `tfstool_read`: `n` entries left, entry `i` next; `out` is the target file. -/
def readLoop (order : ByteOrder) (inode : Bytes) (filesize : Nat) :
    Nat → Nat → Bytes → List Byte → Prog HostFile (Option (List Byte))
  | 0, _, _, out => pure (some out)
  | n + 1, i, data, out => do
      let bnum := (ntohl order (hostWord order inode (directWord i))).toNat
      if bnum ≠ 0 then do
        let block ← readBlock data bnum
        match block with
        | none => pure none
        | some data =>
            let size := min (toUint32 ((filesize : Int) - out.length)) TFS_BLOCK_SIZE
            readLoop order inode filesize n (i + 1) data (out ++ (List.range size).map data)
      else pure (some out)

/-- The target file, if the source is found. -/
def tfstoolRead (order : ByteOrder) (masterDir inode data : Bytes) (source : Name) :
    Prog HostFile (Option (List Byte)) := do
  let directory ← readBlock masterDir TFS_DIRECTORY_BLOCK
  match directory with
  | none => pure none
  | some masterDir =>
      match (List.range TFS_MAX_FILES).find? fun i => nameCompare masterDir i source = 0 with
      | none => pure none
      | some index => do
          let block ← readBlock inode (ntohl order (hostWord order masterDir (5 * index))).toNat
          match block with
          | none => pure none
          | some inode =>
              let filesize := (ntohl order (hostWord order inode 0)).toNat
              readLoop order inode filesize TFS_BLOCKS_MAX 0 data []

end Buenos.Util
