/-
# Fs.FlatMap -- the block map of a FlatFS file

Logical block `k` of a file is named in the inode for `k < 7` and in a table of 128
words after that.  Table 0 is the single-indirect block; table `c + 1` is the block
that entry `c` of the double-indirect block names.  So the two indirect cases of the
source are one: block `k` is entry `(k - 7) % 128` of table `(k - 7) / 128`.

A map is read off three things: the blocks of the disk, the inode and the
double-indirect block, the last two either in their buffers or on the disk.
-/
import Buenos.Fs.FlatFs
import Mathlib.Data.List.Nodup
import Mathlib.Data.List.Range

namespace Buenos.Fs

open Buenos.Lib Buenos.Theory

set_option autoImplicit false

/-! ## Shape -/

/-- Blocks of a file of `n` bytes. -/
def blocksOf (n : Nat) : Nat := (n + 511) / 512

/-- Tables of a file of `k` blocks. -/
def tables (k : Nat) : Nat := (k + 120) / 128

/-- The table that names a logical block past the direct ones, and the entry there. -/
def tableOf (k : Nat) : Nat := (k - 7) / 128

def slotOf (k : Nat) : Nat := (k - 7) % 128

theorem slotOf_lt (k : Nat) : slotOf k < 128 := Nat.mod_lt _ (by decide)

theorem tables_of_le {k : Nat} (small : k ≤ 7) : tables k = 0 := by
  unfold tables
  omega

theorem tables_mono {k m : Nat} (le : k ≤ m) : tables k ≤ tables m := by
  unfold tables
  omega

theorem tableOf_lt {j k : Nat} (large : 7 ≤ j) (less : j < k) : tableOf j < tables k := by
  unfold tableOf tables
  omega

/-- A file whose last table is full has no table for its next block. -/
theorem tables_of_full {k : Nat} (large : 7 ≤ k) (full : slotOf k = 0) : tables k = tableOf k := by
  unfold slotOf at full
  unfold tables tableOf
  omega

theorem tables_of_partial {k : Nat} (large : 7 ≤ k) (room : slotOf k ≠ 0) :
    tables k = tableOf k + 1 := by
  unfold slotOf at room
  unfold tables tableOf
  omega

/-- Blocks added within one table. -/
theorem tables_add {k m : Nat} (large : 7 ≤ k) (some : 0 < m) (fits : slotOf k + m ≤ 128) :
    tables (k + m) = tableOf k + 1 := by
  unfold slotOf at fits
  unfold tables tableOf
  omega

theorem tableOf_add {k i : Nat} (large : 7 ≤ k) (fits : slotOf k + i < 128) :
    tableOf (k + i) = tableOf k ∧ slotOf (k + i) = slotOf k + i := by
  unfold slotOf at fits
  unfold tableOf slotOf
  omega

/-- A block index is recovered from its table and its slot. -/
theorem place_eq {k : Nat} (large : 7 ≤ k) : 7 + 128 * tableOf k + slotOf k = k := by
  unfold tableOf slotOf
  omega

/-! ## The map -/

def tableAt (ino di : Block) (c : Nat) : Word := if c = 0 then ino indirWord else di (c - 1)

def blockAt (blocks : Nat → Block) (ino di : Block) (k : Nat) : Word :=
  if k < 7 then ino (directWord k) else blocks (tableAt ino di (tableOf k)).toNat (slotOf k)

def mapped (blocks : Nat → Block) (ino di : Block) (k : Nat) : List Nat :=
  (List.range k).map fun j => (blockAt blocks ino di j).toNat

def tabled (ino di : Block) (k : Nat) : List Nat :=
  (List.range (tables k)).map fun c => (tableAt ino di c).toNat

@[simp] theorem mapped_length (blocks : Nat → Block) (ino di : Block) (k : Nat) :
    (mapped blocks ino di k).length = k := by
  simp [mapped]

@[simp] theorem tabled_length (ino di : Block) (k : Nat) : (tabled ino di k).length = tables k := by
  simp [tabled]

theorem mem_mapped {blocks : Nat → Block} {ino di : Block} {k b : Nat} :
    b ∈ mapped blocks ino di k ↔ ∃ j < k, (blockAt blocks ino di j).toNat = b := by
  simp [mapped]

theorem mem_tabled {ino di : Block} {k b : Nat} :
    b ∈ tabled ino di k ↔ ∃ c < tables k, (tableAt ino di c).toNat = b := by
  simp [tabled]

theorem tableAt_mem {ino di : Block} {j k : Nat} (large : 7 ≤ j) (less : j < k) :
    (tableAt ino di (tableOf j)).toNat ∈ tabled ino di k :=
  mem_tabled.2 ⟨_, tableOf_lt large less, rfl⟩

theorem mapped_congr {blocks blocks' : Nat → Block} {ino ino' di di' : Block} {k : Nat}
    (same : ∀ j < k, blockAt blocks' ino' di' j = blockAt blocks ino di j) :
    mapped blocks' ino' di' k = mapped blocks ino di k := by
  unfold mapped
  apply List.map_congr_left
  intro j mem
  rw [same j (List.mem_range.1 mem)]

theorem tabled_congr {ino ino' di di' : Block} {k : Nat}
    (same : ∀ c < tables k, tableAt ino' di' c = tableAt ino di c) :
    tabled ino' di' k = tabled ino di k := by
  unfold tabled
  apply List.map_congr_left
  intro c mem
  rw [same c (List.mem_range.1 mem)]

/-- **Frame.**  The map of a file only depends on its inode's pointers, on the names in
its double-indirect block and on its tables. -/
theorem blockAt_congr {blocks blocks' : Nat → Block} {ino ino' di di' : Block} {k : Nat}
    (direct : ∀ i < 7, i < k → ino' (directWord i) = ino (directWord i))
    (named : ∀ c < tables k, tableAt ino' di' c = tableAt ino di c)
    (kept : ∀ b ∈ tabled ino di k, blocks' b = blocks b) :
    ∀ j < k, blockAt blocks' ino' di' j = blockAt blocks ino di j := by
  intro j less
  unfold blockAt
  by_cases small : j < 7
  · rw [if_pos small, if_pos small, direct j small less]
  · rw [if_neg small, if_neg small, named _ (tableOf_lt (by omega) less),
      kept _ (tableAt_mem (by omega) less)]

/-- One more block at the end. -/
theorem mapped_append {blocks blocks' : Nat → Block} {ino ino' di di' : Block} {k : Nat}
    {data : List Nat} (same : ∀ j < k, blockAt blocks' ino' di' j = blockAt blocks ino di j)
    (more : ∀ i, ∀ less : i < data.length, (blockAt blocks' ino' di' (k + i)).toNat = data[i]) :
    mapped blocks' ino' di' (k + data.length) = mapped blocks ino di k ++ data := by
  apply List.ext_getElem
  · simp
  · intro i inside _
    have bound : i < k + data.length := by simpa using inside
    by_cases old : i < k
    · rw [List.getElem_append_left (by simpa using old)]
      simp [mapped, same i old]
    · rw [List.getElem_append_right (by simpa using old)]
      have := more (i - k) (by omega)
      rw [show k + (i - k) = i by omega] at this
      simp [mapped, this]

end Buenos.Fs
