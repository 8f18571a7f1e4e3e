/-
# Userland.Heap -- the heap of the userland library

The allocator of tests/lib.c.  A free block begins with its size and a pointer to the next
free block, a block in use with its size only; both are words of the memory.  `malloc` takes
the first block of the free list that is big enough, or the end of it when the rest is worth
keeping; `free` puts a block back in the order of the addresses and merges it with the
blocks next to it.

The loops over the free list are given more turns than it can have blocks, and have no
result when these do not suffice.
-/
import Buenos.Theory.Interval
import Buenos.Theory.Memory

namespace Buenos.Userland

open Buenos.Theory

set_option autoImplicit false

def HEAP_SIZE : BitVec 32 := 256

/-- `sizeof(free_block_t)` -/
def MIN_ALLOC_SIZE : BitVec 32 := 8

structure Heap where
  freeList : BitVec 32
  mem : Memory

namespace Heap

/-- `block->size` -/
def size (h : Heap) (block : BitVec 32) : BitVec 32 := loadWord h.mem block.toNat

/-- `block->next` -/
def next (h : Heap) (block : BitVec 32) : BitVec 32 := loadWord h.mem (block.toNat + 4)

def setSize (h : Heap) (block value : BitVec 32) : Heap :=
  { h with mem := storeWord h.mem block.toNat value }

def setNext (h : Heap) (block value : BitVec 32) : Heap :=
  { h with mem := storeWord h.mem (block.toNat + 4) value }

/-- Write to the link to the next block: that of a block, or the start of the list. -/
def setLink (h : Heap) (prev value : BitVec 32) : Heap :=
  if prev = 0 then { h with freeList := value } else h.setNext prev value

end Heap

/-- `heap` is the address of the array. -/
def heapInit (heap : BitVec 32) (h : Heap) : Heap :=
  let h := { h with freeList := heap }
  let h := h.setSize h.freeList HEAP_SIZE
  h.setNext h.freeList 0

/-- Enough for bookkeeping, and word-aligned. -/
def roundSize (size : BitVec 32) : BitVec 32 :=
  let size := if size < MIN_ALLOC_SIZE then MIN_ALLOC_SIZE else size
  if size % 4 ≠ 0 then (size &&& 0xfffffffc) + 4 else size

/-- `prev` is the block whose link `prev_p` points to, and 0 for the start of the list. -/
def mallocFrom (size : BitVec 32) : Nat → Heap → BitVec 32 → BitVec 32 → Option (Heap × BitVec 32)
  | 0, _, _, _ => none
  | turns + 1, h, prev, block =>
      if block = 0 then some (h, 0)
      else if (MIN_ALLOC_SIZE + 4).toInt ≤ (h.size block - size - 4).toInt then
        let h := h.setSize block (h.size block - (size + 4))
        let newBlock := block + h.size block
        some (h.setSize newBlock (size + 4), newBlock + 4)
      else if size + 4 ≤ h.size block then some (h.setLink prev (h.next block), block + 4)
      else mallocFrom size turns h block (h.next block)

def malloc (h : Heap) (size : BitVec 32) : Option (Heap × BitVec 32) :=
  if size = 0 then some (h, 0)
  else mallocFrom (roundSize size) (HEAP_SIZE.toNat + 2) h 0 h.freeList

/-- The block that `block` is part of after a merge with the previous one. -/
def mergePrev (h : Heap) (prev block cur : BitVec 32) : Heap × BitVec 32 :=
  if prev ≠ 0 ∧ block - prev = h.size prev then
    ((h.setSize prev (h.size prev + h.size block)).setNext prev cur, prev)
  else (h, block)

def mergeNext (h : Heap) (block cur : BitVec 32) : Heap :=
  if cur ≠ 0 ∧ cur - block = h.size block then
    let h := h.setSize block (h.size block + h.size cur)
    h.setNext block (h.next cur)
  else h

/-- Insert between `prev` and `cur`. -/
def insertBlock (h : Heap) (prev block cur : BitVec 32) : Heap :=
  let h := (h.setLink prev block).setNext block cur
  let merged := mergePrev h prev block cur
  mergeNext merged.1 merged.2 cur

def freeFrom (block : BitVec 32) : Nat → Heap → BitVec 32 → BitVec 32 → Option Heap
  | 0, _, _, _ => none
  | turns + 1, h, prev, cur =>
      if block < cur ∨ cur = 0 then some (insertBlock h prev block cur)
      else freeFrom block turns h cur (h.next cur)

/-- The guard of the source compares the function itself with `NULL`, and always holds. -/
def free (h : Heap) (ptr : BitVec 32) : Option Heap :=
  freeFrom (ptr - 4) (HEAP_SIZE.toNat + 2) h 0 h.freeList

/-! ## Loads after stores -/

namespace Heap

variable (h : Heap) {p q : BitVec 32} (value : BitVec 32)

@[simp] theorem size_setSize : (h.setSize p value).size p = value := loadWord_storeWord _ _ _

@[simp] theorem next_setNext : (h.setNext p value).next p = value := loadWord_storeWord _ _ _

@[simp] theorem next_setSize : (h.setSize p value).next p = h.next p :=
  loadWord_storeWord_of_apart _ _ (Or.inr (Nat.le_refl _))

@[simp] theorem size_setNext : (h.setNext p value).size p = h.size p :=
  loadWord_storeWord_of_apart _ _ (Or.inl (Nat.le_refl _))

@[simp] theorem freeList_setSize : (h.setSize p value).freeList = h.freeList := rfl

@[simp] theorem freeList_setNext : (h.setNext p value).freeList = h.freeList := rfl

theorem mem_setSize {x : Nat} (outside : x < p.toNat ∨ p.toNat + 8 ≤ x) :
    (h.setSize p value).mem x = h.mem x :=
  storeWord_of_outside _ _ (by omega)

theorem mem_setNext {x : Nat} (outside : x < p.toNat ∨ p.toNat + 8 ≤ x) :
    (h.setNext p value).mem x = h.mem x :=
  storeWord_of_outside _ _ (by omega)

variable {h} in
/-- The header of a block is what its bytes say. -/
theorem header_congr {h' : Heap} (same : ∀ x, p.toNat ≤ x → x < p.toNat + 8 → h'.mem x = h.mem x) :
    h'.size p = h.size p ∧ h'.next p = h.next p :=
  ⟨loadWord_congr fun x above below => same x above (by omega),
    loadWord_congr fun x above below => same x (by omega) (by omega)⟩

/-! ## Segments of the free list -/

/-- The blocks from `p` up to the link that is `q`. -/
def Seg (h : Heap) : BitVec 32 → List Block → BitVec 32 → Prop
  | p, [], q => p = q
  | p, b :: blocks, q =>
      p.toNat = b.addr ∧ (h.size p).toNat = b.size ∧ Seg h (h.next p) blocks q

variable {h} {h' : Heap} {blocks blocks' : List Block} {r : BitVec 32}

theorem seg_append : h.Seg p (blocks ++ blocks') q ↔ ∃ r, h.Seg p blocks r ∧ h.Seg r blocks' q := by
  induction blocks generalizing p with
  | nil => simp [Seg]
  | cons b blocks ih => simp [Seg, ih, and_assoc]

theorem Seg.congr (seg : h.Seg p blocks q)
    (same : ∀ b ∈ blocks, ∀ x, b.addr ≤ x → x < b.addr + 8 → h'.mem x = h.mem x) :
    h'.Seg p blocks q := by
  induction blocks generalizing p with
  | nil => exact seg
  | cons b blocks ih =>
      obtain ⟨addr, size, rest⟩ := seg
      have header : h'.size p = h.size p ∧ h'.next p = h.next p := by
        refine header_congr fun x above below => same b List.mem_cons_self x ?_ ?_
        · omega
        · omega
      refine ⟨addr, ?_, ?_⟩
      · rw [header.1]
        exact size
      · rw [header.2]
        exact ih rest fun c member => same c (List.mem_cons_of_mem _ member)

/-- The blocks do not reach the header at `p`. -/
def Clear (p : BitVec 32) (blocks : List Block) : Prop :=
  ∀ b ∈ blocks, b.addr + 8 ≤ p.toNat ∨ p.toNat + 8 ≤ b.addr

theorem Seg.setSize (seg : h.Seg p blocks q) (clear : Clear r blocks) :
    (h.setSize r value).Seg p blocks q :=
  seg.congr fun b member x above below => h.mem_setSize value (by have := clear b member; omega)

theorem Seg.setNext (seg : h.Seg p blocks q) (clear : Clear r blocks) :
    (h.setNext r value).Seg p blocks q :=
  seg.congr fun b member x above below => h.mem_setNext value (by have := clear b member; omega)

end Heap

end Buenos.Userland
