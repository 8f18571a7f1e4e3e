/-
# Fs.Disk -- blocks, the disk and a mounted volume

A block is 512 bytes.  It is kept as its 128 words, the view that inodes,
indirection blocks and bitmaps have of it; names and file data are its bytes, most
significant byte of a word first.  Words from 128 on are not part of the block.

`Disk` is the generic block device under a filesystem.  The driver refuses a request
only when it gets no semaphore to wait on; `answers n` says whether the `n`th request
is served.  The device itself rejects a block past its end, and the kernel panics.
`served` is the history of the requests that reached the device, latest first.

`Volume` is what a mounted filesystem works on: the disk, its lock and its block
buffers, one for each value of an index type `β`.  `refused` counts the allocations
that found the bitmap full; no function reads it.
-/
import Buenos.Lib.Bitmap
import Buenos.Lib.Libc
import Buenos.Theory.Memory
import Buenos.Theory.Prog
import Mathlib.Logic.Function.Basic

namespace Buenos.Fs

open Buenos.Lib Buenos.Theory

set_option autoImplicit false
set_option linter.unusedSectionVars false

abbrev Block := Nat → Word

/-! ## Bytes of a block -/

namespace Block

/-- The words that a sequence of bytes spells. -/
def ofBytes (bytes : Nat → Byte) : Block := fun i =>
  bytes (4 * i) ++ bytes (4 * i + 1) ++ bytes (4 * i + 2) ++ bytes (4 * i + 3)

def byte (b : Block) (j : Nat) : Byte := (b (j / 4)).extractLsb' (8 * (3 - j % 4)) 8

@[simp] theorem byte_ofBytes (bytes : Nat → Byte) (j : Nat) : (ofBytes bytes).byte j = bytes j := by
  have cases : j = 4 * (j / 4) ∨ j = 4 * (j / 4) + 1 ∨ j = 4 * (j / 4) + 2 ∨
      j = 4 * (j / 4) + 3 := by omega
  obtain ⟨first, second, third, fourth⟩ := extract_append (bytes (4 * (j / 4)))
    (bytes (4 * (j / 4) + 1)) (bytes (4 * (j / 4) + 2)) (bytes (4 * (j / 4) + 3))
  unfold byte ofBytes
  rcases cases with place | place | place | place
  · rw [show 8 * (3 - j % 4) = 24 by omega, first, ← place]
  · rw [show 8 * (3 - j % 4) = 16 by omega, second, ← place]
  · rw [show 8 * (3 - j % 4) = 8 by omega, third, ← place]
  · rw [show 8 * (3 - j % 4) = 0 by omega, fourth, ← place]

/-- A word is what its own bytes spell. -/
theorem ofBytes_byte (b : Block) : ofBytes b.byte = b := by
  funext i
  unfold byte ofBytes
  apply BitVec.eq_of_getLsbD_eq
  intro k bound
  simp only [BitVec.getLsbD_append, BitVec.getLsbD_extractLsb']
  rw [show 4 * i / 4 = i by omega, show (4 * i + 1) / 4 = i by omega,
    show (4 * i + 2) / 4 = i by omega, show (4 * i + 3) / 4 = i by omega,
    show 4 * i % 4 = 0 by omega, show (4 * i + 1) % 4 = 1 by omega,
    show (4 * i + 2) % 4 = 2 by omega, show (4 * i + 3) % 4 = 3 by omega]
  simp only [show k < 8 ↔ k / 8 = 0 by omega]
  grind

/-- Bytes of another word are not seen. -/
theorem byte_congr {b c : Block} {j : Nat} (same : b (j / 4) = c (j / 4)) : b.byte j = c.byte j := by
  rw [byte, byte, same]

/-- A word is determined by its four bytes. -/
theorem word_congr {b c : Block} {i : Nat}
    (same : ∀ j, j / 4 = i → b.byte j = c.byte j) : b i = c i := by
  rw [← ofBytes_byte b, ← ofBytes_byte c]
  unfold ofBytes
  rw [same (4 * i) (by omega), same (4 * i + 1) (by omega), same (4 * i + 2) (by omega),
    same (4 * i + 3) (by omega)]

@[simp] theorem byte_zero (j : Nat) : byte (fun _ => 0#32) j = 0#8 := by
  simp [byte]

end Block

/-- Copy `n` bytes of `source` into a block from byte `pos` on. -/
def memcopy (n : Nat) (target : Block) (pos : Nat) (source : Nat → Byte) : Block :=
  Block.ofBytes fun j => if pos ≤ j ∧ j < pos + n then source (j - pos) else target.byte j

theorem byte_memcopy (n : Nat) (target : Block) (pos : Nat) (source : Nat → Byte) (j : Nat) :
    (memcopy n target pos source).byte j =
      if pos ≤ j ∧ j < pos + n then source (j - pos) else target.byte j := by
  rw [memcopy, Block.byte_ofBytes]

/-- Words that the copied range does not meet stay. -/
theorem memcopy_word {n : Nat} {target : Block} {pos : Nat} {source : Nat → Byte} {i : Nat}
    (apart : 4 * i + 4 ≤ pos ∨ pos + n ≤ 4 * i) : memcopy n target pos source i = target i := by
  apply Block.word_congr
  intro j within
  rw [byte_memcopy, if_neg (by omega)]

@[simp] theorem memcopy_zero (target : Block) (pos : Nat) (source : Nat → Byte) :
    memcopy 0 target pos source = target := by
  funext i
  apply Block.word_congr
  intro j _
  rw [byte_memcopy, if_neg (by omega)]

/-- Byte `k` of a string's array: a character, or the terminator. -/
def charAt (name : Name) (k : Nat) : Byte := (Name.bytes name).getD k 0

/-- `stringcopy` into the `buflen` bytes of a block from byte `pos` on: the characters
that fit, and one terminator.  The source's padding loop never moves its target, so
the bytes after the terminator stay as they were. -/
def copyName (target : Block) (pos : Nat) (source : Name) (buflen : Nat) : Block :=
  memcopy ((stringcopy source buflen).length + 1) target pos (charAt (stringcopy source buflen))

/-- The string that starts at byte `pos` of a block. -/
def nameAt (b : Block) (pos : Nat) : Name :=
  cstring ((List.range (512 - pos)).map fun k => b.byte (pos + k))

/-! ## The disk -/

inductive GbdOperation where
  | read
  | write
  deriving DecidableEq, Repr

structure Request where
  block : Nat
  operation : GbdOperation
  deriving DecidableEq, Repr

structure Disk where
  blocks : Nat → Block
  totalBlocks : Nat
  answers : Nat → Bool
  asked : Nat
  served : List Request

/-- Submit a request; `done` is what the device does with it. -/
def diskSubmitRequest (request : Request) (done : Disk → Disk) : Prog Disk Bool := fun d =>
  if d.answers d.asked then
    if request.block < d.totalBlocks then
      .returned (true, done { d with asked := d.asked + 1, served := request :: d.served })
    else .stopped .device
  else .returned (false, { d with asked := d.asked + 1 })

/-- The answer is the next one, and only a served request does anything. -/
theorem diskSubmitRequest_returned {request : Request} {done : Disk → Disk} {d e : Disk}
    {ok : Bool}
    (ran : diskSubmitRequest request done d = .returned (ok, e)) :
    ok = d.answers d.asked ∧
      e = if ok then done { d with asked := d.asked + 1, served := request :: d.served }
        else { d with asked := d.asked + 1 } := by
  unfold diskSubmitRequest at ran
  cases answered : d.answers d.asked with
  | false =>
      rw [answered, if_neg (by decide)] at ran
      cases ran
      exact ⟨rfl, rfl⟩
  | true =>
      rw [answered, if_pos rfl] at ran
      split at ran
      · cases ran
        exact ⟨rfl, rfl⟩
      · cases ran

/-! ## Volumes -/

structure Volume (β : Type) where
  disk : Disk
  totalblocks : Nat
  lock : Int
  buffer : β → Block
  refused : Nat

namespace Volume

variable {β : Type} [DecidableEq β]

def setBuffer (s : Volume β) (b : β) (content : Block) : Volume β :=
  { s with buffer := Function.update s.buffer b content }

/-- Word `i` of buffer `b` becomes `w`. -/
def setWord (s : Volume β) (b : β) (i : Nat) (w : Word) : Volume β :=
  s.setBuffer b (Function.update (s.buffer b) i w)

def blocks (s : Volume β) : Nat → Block := s.disk.blocks

end Volume

section Actions

variable {β : Type} [DecidableEq β]

def lockP : Prog (Volume β) Unit := fun s =>
  if 0 < s.lock then .returned ((), { s with lock := s.lock - 1 }) else .stopped .asleep

def lockV : Prog (Volume β) Unit := Prog.modify fun s => { s with lock := s.lock + 1 }

/-- Release the lock and return. -/
def unlock {α : Type} (result : α) : Prog (Volume β) α := do
  lockV
  pure result

/-- Read `block` into buffer `b`; the buffer is untouched if the request is refused. -/
def readBlock (block : Word) (b : β) : Prog (Volume β) Bool := fun s =>
  match diskSubmitRequest ⟨block.toNat, .read⟩ id s.disk with
  | .returned (true, d) =>
      .returned (true, { s with disk := d }.setBuffer b (d.blocks block.toNat))
  | .returned (false, d) => .returned (false, { s with disk := d })
  | .stopped why => .stopped why

/-- Write `content` to `block`. -/
def writeBlock (block : Word) (content : Block) : Prog (Volume β) Bool :=
  Prog.zoom (fun s => s.disk) (fun d s => { s with disk := d })
    (diskSubmitRequest ⟨block.toNat, .write⟩ fun d =>
      { d with blocks := Function.update d.blocks block.toNat content })

/-- Write buffer `b` to `block`. -/
def writeBuffer (block : Word) (b : β) : Prog (Volume β) Bool := fun s =>
  writeBlock block (s.buffer b) s

end Actions

/-! ## Served requests -/

namespace Volume

variable {β : Type} [DecidableEq β] {s t u : Volume β}

/-- After a served read of `block` into buffer `b`. -/
def didRead (s : Volume β) (block : Nat) (b : β) : Volume β :=
  { s with
    disk := { s.disk with asked := s.disk.asked + 1, served := ⟨block, .read⟩ :: s.disk.served }
    buffer := Function.update s.buffer b (s.disk.blocks block) }

/-- After a served write of `content` to `block`. -/
def didWrite (s : Volume β) (block : Nat) (content : Block) : Volume β :=
  { s with
    disk :=
      { s.disk with
        blocks := Function.update s.disk.blocks block content
        asked := s.disk.asked + 1
        served := ⟨block, .write⟩ :: s.disk.served } }

/-- What no operation of a driver changes between taking and releasing the lock. -/
structure Same (s t : Volume β) : Prop where
  totalblocks : t.totalblocks = s.totalblocks
  totalBlocks : t.disk.totalBlocks = s.disk.totalBlocks
  answers : t.disk.answers = s.disk.answers
  lock : t.lock = s.lock

theorem Same.refl (s : Volume β) : Same s s := ⟨rfl, rfl, rfl, rfl⟩

theorem Same.trans (first : Same s t) (second : Same t u) : Same s u :=
  ⟨second.totalblocks.trans first.totalblocks, second.totalBlocks.trans first.totalBlocks,
    second.answers.trans first.answers, second.lock.trans first.lock⟩

theorem Same.setBuffer (b : β) (content : Block) : Same s (s.setBuffer b content) :=
  ⟨rfl, rfl, rfl, rfl⟩

theorem Same.setWord (b : β) (i : Nat) (w : Word) : Same s (s.setWord b i w) := ⟨rfl, rfl, rfl, rfl⟩

theorem Same.didRead (block : Nat) (b : β) : Same s (s.didRead block b) := ⟨rfl, rfl, rfl, rfl⟩

theorem Same.didWrite (block : Nat) (content : Block) : Same s (s.didWrite block content) :=
  ⟨rfl, rfl, rfl, rfl⟩

/-- Every request is served, and the volume fits on its disk and in its bitmap. -/
structure Ready (s : Volume β) : Prop where
  answers : ∀ n, s.disk.answers n = true
  fits : s.totalblocks ≤ s.disk.totalBlocks
  small : s.totalblocks ≤ 4096

theorem Ready.same (ready : s.Ready) (same : Same s t) : t.Ready where
  answers := by rw [same.answers]; exact ready.answers
  fits := by rw [same.totalblocks, same.totalBlocks]; exact ready.fits
  small := by rw [same.totalblocks]; exact ready.small

@[simp] theorem setBuffer_blocks (b : β) (content : Block) :
    (s.setBuffer b content).blocks = s.blocks := rfl

@[simp] theorem setWord_blocks (b : β) (i : Nat) (w : Word) :
    (s.setWord b i w).blocks = s.blocks := rfl

@[simp] theorem didRead_blocks (block : Nat) (b : β) : (s.didRead block b).blocks = s.blocks := rfl

@[simp] theorem didWrite_blocks (block : Nat) (content : Block) :
    (s.didWrite block content).blocks = Function.update s.blocks block content := rfl

@[simp] theorem setBuffer_buffer (b : β) (content : Block) :
    (s.setBuffer b content).buffer = Function.update s.buffer b content := rfl

@[simp] theorem setWord_buffer (b : β) (i : Nat) (w : Word) :
    (s.setWord b i w).buffer = Function.update s.buffer b (Function.update (s.buffer b) i w) := rfl

@[simp] theorem didRead_buffer (block : Nat) (b : β) :
    (s.didRead block b).buffer = Function.update s.buffer b (s.blocks block) := rfl

@[simp] theorem didWrite_buffer (block : Nat) (content : Block) :
    (s.didWrite block content).buffer = s.buffer := rfl

@[simp] theorem setBuffer_totalblocks (b : β) (content : Block) :
    (s.setBuffer b content).totalblocks = s.totalblocks := rfl

@[simp] theorem setWord_totalblocks (b : β) (i : Nat) (w : Word) :
    (s.setWord b i w).totalblocks = s.totalblocks := rfl

@[simp] theorem didRead_totalblocks (block : Nat) (b : β) :
    (s.didRead block b).totalblocks = s.totalblocks := rfl

@[simp] theorem didWrite_totalblocks (block : Nat) (content : Block) :
    (s.didWrite block content).totalblocks = s.totalblocks := rfl

@[simp] theorem setBuffer_refused (b : β) (content : Block) :
    (s.setBuffer b content).refused = s.refused := rfl

@[simp] theorem setWord_refused (b : β) (i : Nat) (w : Word) :
    (s.setWord b i w).refused = s.refused := rfl

@[simp] theorem didRead_refused (block : Nat) (b : β) : (s.didRead block b).refused = s.refused := rfl

@[simp] theorem didWrite_refused (block : Nat) (content : Block) :
    (s.didWrite block content).refused = s.refused := rfl

/-- The disk is untouched, and so is everything but the buffers. -/
theorem readBlock_ready (ready : s.Ready) {block : Word} (b : β)
    (inside : block.toNat < s.totalblocks) :
    readBlock block b s = .returned (true, s.didRead block.toNat b) := by
  have onDisk : block.toNat < s.disk.totalBlocks := by
    have := ready.fits
    omega
  simp only [readBlock, diskSubmitRequest, ready.answers, if_true, onDisk]
  rfl

theorem writeBlock_ready (ready : s.Ready) {block : Word} (content : Block)
    (inside : block.toNat < s.totalblocks) :
    writeBlock block content s = .returned (true, s.didWrite block.toNat content) := by
  have onDisk : block.toNat < s.disk.totalBlocks := by
    have := ready.fits
    omega
  simp only [writeBlock, Prog.zoom, diskSubmitRequest, ready.answers, if_true, onDisk]
  rfl

theorem writeBuffer_ready (ready : s.Ready) (block : Word) (b : β)
    (inside : block.toNat < s.totalblocks) :
    writeBuffer block b s = .returned (true, s.didWrite block.toNat (s.buffer b)) :=
  writeBlock_ready ready _ inside

section Ran

variable (ready : s.Ready) {block : Word} {b : β} {a : Bool}

include ready

theorem readBlock_ran (ran : readBlock block b s = .returned (a, t)) :
    a = true ∧ t = s.didRead block.toNat b := by
  simp only [readBlock, diskSubmitRequest, ready.answers, if_true] at ran
  by_cases inside : block.toNat < s.disk.totalBlocks
  · simp only [inside, if_true] at ran
    cases ran
    exact ⟨rfl, rfl⟩
  · simp [inside] at ran

theorem writeBuffer_ran (ran : writeBuffer block b s = .returned (a, t)) :
    a = true ∧ t = s.didWrite block.toNat (s.buffer b) := by
  simp only [writeBuffer, writeBlock, Prog.zoom, diskSubmitRequest, ready.answers, if_true] at ran
  by_cases inside : block.toNat < s.disk.totalBlocks
  · simp only [inside, if_true] at ran
    cases ran
    exact ⟨rfl, rfl⟩
  · simp [inside] at ran

end Ran

/-- The first three blocks can be read and written on every volume. -/
theorem readBlock_system (ready : s.Ready) (room : 3 ≤ s.totalblocks) {block : Nat}
    (system : block < 3) (b : β) :
    readBlock (BitVec.ofNat 32 block) b s = .returned (true, s.didRead block b) := by
  have number : (BitVec.ofNat 32 block).toNat = block := by
    rw [BitVec.toNat_ofNat]
    omega
  rw [readBlock_ready ready b (by omega), number]

theorem writeBuffer_system (ready : s.Ready) (room : 3 ≤ s.totalblocks) {block : Nat}
    (system : block < 3) (b : β) :
    writeBuffer (BitVec.ofNat 32 block) b s = .returned (true, s.didWrite block (s.buffer b)) := by
  have number : (BitVec.ofNat 32 block).toNat = block := by
    rw [BitVec.toNat_ofNat]
    omega
  rw [writeBuffer_ready ready _ b (by omega), number]

theorem unlock_apply {α : Type} (result : α) :
    unlock result s = .returned (result, { s with lock := s.lock + 1 }) := rfl

/-! ## Under the lock -/

/-- Nothing on the disk has changed. -/
structure Unchanged (s t : Volume β) : Prop where
  same : Volume.Same s t
  disk : t.blocks = s.blocks

/-- With the lock taken. -/
def locked (s : Volume β) : Volume β := { s with lock := s.lock - 1 }

@[simp] theorem locked_blocks (s : Volume β) : s.locked.blocks = s.blocks := rfl

@[simp] theorem locked_totalblocks (s : Volume β) : s.locked.totalblocks = s.totalblocks := rfl

theorem lockP_free (free : 0 < s.lock) : lockP s = .returned ((), s.locked) := if_pos free

theorem Ready.locked (ready : s.Ready) : s.locked.Ready := ⟨ready.answers, ready.fits, ready.small⟩

theorem Same.unlock (same : Volume.Same s.locked t) :
    Volume.Same s { t with lock := t.lock + 1 } :=
  ⟨same.totalblocks, same.totalBlocks, same.answers, by
    rw [same.lock]
    exact Int.sub_add_cancel s.lock 1⟩

theorem Unchanged.unlock (kept : Unchanged s.locked t) :
    Unchanged s { t with lock := t.lock + 1 } :=
  ⟨kept.same.unlock, kept.disk⟩

/-- A volume of `n` blocks with these contents, not in use. -/
def idle (n : Nat) (blocks : Nat → Block) : Volume β where
  disk := { blocks := blocks, totalBlocks := n, answers := fun _ => true, asked := 0, served := [] }
  totalblocks := n
  lock := 1
  buffer := fun _ _ => 0
  refused := 0

theorem ready_idle {n : Nat} (small : n ≤ 4096) (blocks : Nat → Block) :
    Ready (idle n blocks : Volume β) :=
  ⟨fun _ => rfl, Nat.le_refl n, small⟩

end Volume

end Buenos.Fs
