/-
# Fs.TfsImage -- consistent TFS images

An image is the contents of the blocks of a volume.  Entry `j` of the directory is in use
when it names an inode; it then owns that block and the blocks that the inode lists, up to
the first unused entry of its table.

`Image n blocks` is the consistency that the driver relies on and keeps: the bitmap marks
the three system blocks and what the entries own, nothing is owned twice, all of it is on
the volume, and a table is long enough for the size of its file.  `Image.store` and
`Image.clear` are the two ways in which an image gains and loses a file; `Image.frame`
says that the contents of the files do not matter.
-/
import Buenos.Fs.Directory
import Buenos.Fs.FlatMap
import Buenos.Fs.Tfs
import Buenos.Theory.Ownership

namespace Buenos.Fs

open Buenos.Lib Buenos.Theory

set_option autoImplicit false

/-! ## Inodes -/

/-- `filesize`, as the `int` that the driver compares it as. -/
def fileSize (ino : Block) : Int := toInt32 (ino 0).toNat

/-- The blocks listed in `n` entries of the table, from entry `i` on, up to the first
unused one. -/
def tableFrom (ino : Block) : Nat → Nat → List Nat
  | _, 0 => []
  | i, n + 1 =>
      if ino (directWord i) ≠ 0 then (ino (directWord i)).toNat :: tableFrom ino (i + 1) n else []

def tableBlocks (ino : Block) : List Nat := tableFrom ino 0 127

section Tables

variable {ino ino' : Block}

theorem tableFrom_stop {i : Nat} (n : Nat) (unused : ino (directWord i) = 0) :
    tableFrom ino i n = [] := by
  cases n with
  | zero => rfl
  | succ n => simp [tableFrom, unused]

theorem tableFrom_length_le (i n : Nat) : (tableFrom ino i n).length ≤ n := by
  induction n generalizing i with
  | zero => exact Nat.le_refl _
  | succ n ih =>
      unfold tableFrom
      split
      · simpa using ih (i + 1)
      · exact Nat.zero_le _

theorem tableFrom_getElem (i n : Nat) {k : Nat} (less : k < (tableFrom ino i n).length) :
    (tableFrom ino i n)[k] = (ino (directWord (i + k))).toNat := by
  induction n generalizing i k with
  | zero => simp [tableFrom] at less
  | succ n ih =>
      by_cases unused : ino (directWord i) = 0
      · simp [tableFrom_stop _ unused] at less
      · simp only [tableFrom, ne_eq, unused, not_false_eq_true, if_true] at less ⊢
        cases k with
        | zero => rfl
        | succ k =>
            rw [List.getElem_cons_succ, ih (i + 1) (by simpa using less),
              show i + 1 + k = i + (k + 1) by omega]

theorem tableFrom_ne_zero (i n : Nat) : ∀ b ∈ tableFrom ino i n, b ≠ 0 := by
  induction n generalizing i with
  | zero => simp [tableFrom]
  | succ n ih =>
      by_cases unused : ino (directWord i) = 0
      · simp [tableFrom_stop _ unused]
      · simp only [tableFrom, ne_eq, unused, not_false_eq_true, if_true, List.mem_cons,
          forall_eq_or_imp]
        refine ⟨?_, ih (i + 1)⟩
        intro zero
        exact unused (BitVec.eq_of_toNat_eq zero)

/-- What ends a table that is not full. -/
theorem tableFrom_ended (i n : Nat) (short : (tableFrom ino i n).length < n) :
    ino (directWord (i + (tableFrom ino i n).length)) = 0 := by
  induction n generalizing i with
  | zero => omega
  | succ n ih =>
      by_cases unused : ino (directWord i) = 0
      · rw [tableFrom_stop _ unused, List.length_nil, Nat.add_zero]
        exact unused
      · have split : tableFrom ino i (n + 1) =
            (ino (directWord i)).toNat :: tableFrom ino (i + 1) n := if_pos unused
        rw [split, List.length_cons] at short ⊢
        rw [show i + ((tableFrom ino (i + 1) n).length + 1) =
          i + 1 + (tableFrom ino (i + 1) n).length by omega]
        exact ih (i + 1) (by omega)

/-- The table is read off its words. -/
theorem tableFrom_eq {data : List Nat} (i n : Nat) (few : data.length ≤ n)
    (stored : ∀ k, ∀ less : k < data.length, (ino (directWord (i + k))).toNat = data[k])
    (used : ∀ b ∈ data, b ≠ 0) (ended : data.length < n → ino (directWord (i + data.length)) = 0) :
    tableFrom ino i n = data := by
  induction n generalizing i data with
  | zero =>
      rw [List.length_eq_zero_iff.1 (Nat.le_zero.1 few)]
      rfl
  | succ n ih =>
      cases data with
      | nil =>
          exact tableFrom_stop _ (ended (Nat.succ_pos n))
      | cons b data =>
          have first : (ino (directWord i)).toNat = b := stored 0 (Nat.succ_pos _)
          have nonzero : ino (directWord i) ≠ 0 := by
            intro zero
            apply used b (by simp)
            rw [← first, zero]
            rfl
          rw [tableFrom, if_pos nonzero, first]
          congr 1
          apply ih (i + 1) (by simpa using few)
          · intro k less
            have := stored (k + 1) (by simpa using less)
            rw [show i + 1 + k = i + (k + 1) by omega, this]
            rfl
          · exact fun c mem => used c (List.mem_cons_of_mem _ mem)
          · intro short
            rw [show i + 1 + data.length = i + (b :: data).length by simp; omega]
            exact ended (by simpa using short)

theorem tableBlocks_length_le (ino : Block) : (tableBlocks ino).length ≤ 127 :=
  tableFrom_length_le 0 127

theorem tableBlocks_getElem {k : Nat} (less : k < (tableBlocks ino).length) :
    (tableBlocks ino)[k] = (ino (directWord k)).toNat := by
  have := tableFrom_getElem 0 127 less
  rwa [Nat.zero_add] at this

theorem tableBlocks_mem {k : Nat} (less : k < (tableBlocks ino).length) :
    (ino (directWord k)).toNat ∈ tableBlocks ino := by
  rw [← tableBlocks_getElem less]
  exact List.getElem_mem less

theorem tableBlocks_ended (short : (tableBlocks ino).length < 127) :
    ino (directWord (tableBlocks ino).length) = 0 := by
  have := tableFrom_ended 0 127 short
  rwa [Nat.zero_add] at this

theorem tableBlocks_ne_zero {k : Nat} (less : k < (tableBlocks ino).length) :
    ino (directWord k) ≠ 0 := by
  intro zero
  apply tableFrom_ne_zero 0 127 _ (tableBlocks_mem less)
  rw [zero]
  rfl

end Tables

/-! ## Files -/

def Used (md : Block) (j : Nat) : Prop := j < 25 ∧ entryInode md j ≠ 0

instance (md : Block) (j : Nat) : Decidable (Used md j) := inferInstanceAs (Decidable (_ ∧ _))

/-- The block that entry `j` names. -/
def inodeOf (blocks : Nat → Block) (j : Nat) : Nat := (entryInode (blocks 2) j).toNat

/-- What the file of entry `j` owns. -/
def slotBlocks (blocks : Nat → Block) (j : Nat) : List Nat :=
  if Used (blocks 2) j then inodeOf blocks j :: tableBlocks (blocks (inodeOf blocks j)) else []

/-- Byte `k` of the file with inode block `i`. -/
def fileByte (blocks : Nat → Block) (i k : Nat) : Byte :=
  (blocks (blocks i (directWord (k / 512))).toNat).byte (k % 512)

/-- The contents of the file with inode block `i`. -/
def fileBytes (blocks : Nat → Block) (i : Nat) : List Byte :=
  (List.range (fileSize (blocks i)).toNat).map (fileByte blocks i)

/-- Marked in the bitmap of the image. -/
def Marked (blocks : Nat → Block) (b : Nat) : Prop := b < 4096 ∧ bitmapGet (blocks 1) b = true

structure Image (n : Nat) (blocks : Nat → Block) : Prop where
  exact : Exact (· < 3) (Marked blocks) (slotBlocks blocks)
  inside : ∀ j, ∀ b ∈ slotBlocks blocks j, b < n
  covered : ∀ j, Used (blocks 2) j →
    blocksOf (fileSize (blocks (inodeOf blocks j))).toNat ≤
      (tableBlocks (blocks (inodeOf blocks j))).length
  blanked : Blanked (blocks 2)
  terminated : Terminated (blocks 2)

namespace Image

variable {n : Nat} {blocks blocks' : Nat → Block} {j k b : Nat}

theorem slotBlocks_used (used : Used (blocks 2) j) :
    slotBlocks blocks j = inodeOf blocks j :: tableBlocks (blocks (inodeOf blocks j)) :=
  if_pos used

theorem inode_mem (used : Used (blocks 2) j) : inodeOf blocks j ∈ slotBlocks blocks j := by
  rw [slotBlocks_used used]
  exact List.mem_cons_self

theorem table_mem (used : Used (blocks 2) j)
    (listed : b ∈ tableBlocks (blocks (inodeOf blocks j))) : b ∈ slotBlocks blocks j := by
  rw [slotBlocks_used used]
  exact List.mem_cons_of_mem _ listed

/-- An owned block is a data block of the volume. -/
theorem owned (image : Image n blocks) (mem : b ∈ slotBlocks blocks j) : 3 ≤ b ∧ b < n :=
  ⟨Nat.le_of_not_lt (image.exact.outside j b mem), image.inside j b mem⟩

theorem inode_inside (image : Image n blocks) (used : Used (blocks 2) j) :
    3 ≤ inodeOf blocks j ∧ inodeOf blocks j < n :=
  image.owned (inode_mem used)

/-- Two files have two inodes. -/
theorem inode_injective (image : Image n blocks) (first : Used (blocks 2) j)
    (second : Used (blocks 2) k) (same : inodeOf blocks j = inodeOf blocks k) : j = k :=
  image.exact.owner_unique (inode_mem first) (same ▸ inode_mem second)

/-- No inode is a data block. -/
theorem inode_not_listed (image : Image n blocks) (first : Used (blocks 2) j)
    (second : Used (blocks 2) k) :
    inodeOf blocks j ∉ tableBlocks (blocks (inodeOf blocks k)) := by
  intro listed
  obtain rfl := image.exact.owner_unique (inode_mem first) (table_mem second listed)
  have nodup := image.exact.nodup j
  rw [slotBlocks_used first] at nodup
  exact (List.nodup_cons.1 nodup).1 listed

theorem table_nodup (image : Image n blocks) (used : Used (blocks 2) j) :
    (tableBlocks (blocks (inodeOf blocks j))).Nodup := by
  have nodup := image.exact.nodup j
  rw [slotBlocks_used used] at nodup
  exact (List.nodup_cons.1 nodup).2

/-- A block of the file with entry `j`, by its place. -/
theorem place (image : Image n blocks) (used : Used (blocks 2) j)
    (within : k < blocksOf (fileSize (blocks (inodeOf blocks j))).toNat) :
    k < (tableBlocks (blocks (inodeOf blocks j))).length :=
  Nat.lt_of_lt_of_le within (image.covered j used)

theorem frame_slotBlocks (directory : blocks' 2 = blocks 2)
    (inodes : ∀ j, Used (blocks 2) j → blocks' (inodeOf blocks j) = blocks (inodeOf blocks j)) :
    slotBlocks blocks' = slotBlocks blocks := by
  funext j
  unfold slotBlocks inodeOf
  rw [directory]
  split
  · rename_i used
    have same := inodes j used
    unfold inodeOf at same
    rw [same]
  · rfl

/-- **Frame.**  Consistency is about the bitmap, the directory and the inodes. -/
theorem frame (image : Image n blocks) (bitmap : blocks' 1 = blocks 1)
    (directory : blocks' 2 = blocks 2)
    (inodes : ∀ j, Used (blocks 2) j → blocks' (inodeOf blocks j) = blocks (inodeOf blocks j)) :
    Image n blocks' := by
  have slots := frame_slotBlocks directory inodes
  have places : inodeOf blocks' = inodeOf blocks := by
    funext j
    unfold inodeOf
    rw [directory]
  refine
    { exact := ?_
      inside := ?_
      covered := ?_
      blanked := by rw [directory]; exact image.blanked
      terminated := by rw [directory]; exact image.terminated }
  · rw [slots]
    exact image.exact.congr fun a => by rw [Marked, Marked, bitmap]
  · rw [slots]
    exact image.inside
  · intro j used
    rw [directory] at used
    rw [places, inodes j used]
    exact image.covered j used

end Image

/-! ## A file more, a file less -/

/-- The image with a file in entry `j`: inode block `p`, data blocks `data`. -/
structure Stored (n : Nat) (blocks blocks' : Nat → Block) (j : Nat) (name : Name) (p : Nat)
    (data : List Nat) : Prop where
  free : entryInode (blocks 2) j = 0
  nodup : (p :: data).Nodup
  fresh : ∀ b ∈ p :: data, b < n ∧ ¬ Marked blocks b
  marks : ∀ b, Marked blocks' b ↔ Marked blocks b ∨ b ∈ p :: data
  directory : EntrySet (blocks 2) (blocks' 2) j name (BitVec.ofNat 32 p)
  short : name.length < 16
  table : tableBlocks (blocks' p) = data
  covered : blocksOf (fileSize (blocks' p)).toNat ≤ data.length
  kept : ∀ b, b ∉ p :: data → b ≠ 1 → b ≠ 2 → blocks' b = blocks b

/-- The image without the file of entry `j`. -/
structure Cleared (blocks blocks' : Nat → Block) (j : Nat) : Prop where
  used : Used (blocks 2) j
  marks : ∀ b, Marked blocks' b ↔ Marked blocks b ∧ b ∉ slotBlocks blocks j
  directory : EntrySet (blocks 2) (blocks' 2) j [] 0
  kept : ∀ b, b ≠ 1 → b ≠ 2 → blocks' b = blocks b

section Changes

variable {n : Nat} {blocks blocks' : Nat → Block} {j k p : Nat} {name : Name} {data : List Nat}
  {inode : Word}

theorem EntrySet.used_ne (set : EntrySet (blocks 2) (blocks' 2) j name inode) (ne : k ≠ j) :
    Used (blocks' 2) k ↔ Used (blocks 2) k :=
  and_congr_right fun inside => by rw [set.inodes k inside ne]

theorem EntrySet.inode_ne (set : EntrySet (blocks 2) (blocks' 2) j name inode) (ne : k ≠ j)
    (used : Used (blocks 2) k) : inodeOf blocks' k = inodeOf blocks k := by
  unfold inodeOf
  rw [set.inodes k used.1 ne]

/-- What the other entries own, when their blocks are kept. -/
theorem EntrySet.slots (set : EntrySet (blocks 2) (blocks' 2) j name inode)
    (kept : ∀ k b, k ≠ j → b ∈ slotBlocks blocks k → blocks' b = blocks b) :
    slotBlocks blocks' = Function.update (slotBlocks blocks) j (slotBlocks blocks' j) := by
  funext k
  by_cases same : k = j
  · rw [same, Function.update_self]
  · rw [Function.update_of_ne same]
    by_cases used : Used (blocks 2) k
    · rw [Image.slotBlocks_used used, Image.slotBlocks_used ((set.used_ne same).2 used),
        set.inode_ne same used, kept k _ same (Image.inode_mem used)]
    · unfold slotBlocks
      rw [if_neg used, if_neg fun h => used ((set.used_ne same).1 h)]

/-- No two files have the same name. -/
def Unique (md : Block) : Prop :=
  ∀ j k, Used md j → Used md k → entryName md j = entryName md k → j = k

theorem EntrySet.unique_store (set : EntrySet (blocks 2) (blocks' 2) j name inode)
    (absent : ∀ k < 25, entryName (blocks 2) k ≠ name) (unique : Unique (blocks 2)) :
    Unique (blocks' 2) := by
  have other : ∀ k, k ≠ j → Used (blocks' 2) k → entryName (blocks' 2) k ≠ name := by
    intro k ne used
    rw [set.names k used.1 ne]
    exact absent k used.1
  intro k l first second named
  by_cases left : k = j
  · by_cases right : l = j
    · rw [left, right]
    · exact absurd (named.symm.trans (left ▸ set.name)) (other l right second)
  · by_cases right : l = j
    · exact absurd (named.trans (right ▸ set.name)) (other k left first)
    · apply unique k l ((set.used_ne left).1 first) ((set.used_ne right).1 second)
      rw [← set.names k first.1 left, ← set.names l second.1 right, named]

theorem EntrySet.unique_clear (set : EntrySet (blocks 2) (blocks' 2) j name 0)
    (unique : Unique (blocks 2)) : Unique (blocks' 2) := by
  have other : ∀ k, Used (blocks' 2) k → k ≠ j := fun k used same => used.2 (same ▸ set.inode)
  intro k l first second named
  have left := other k first
  have right := other l second
  apply unique k l ((set.used_ne left).1 first) ((set.used_ne right).1 second)
  rw [← set.names k first.1 left, ← set.names l second.1 right, named]

namespace Stored

variable (image : Image n blocks) (small : n ≤ 4096) (stored : Stored n blocks blocks' j name p data)

include stored

theorem not_used : ¬ Used (blocks 2) j := fun used => used.2 stored.free

theorem slot_empty : slotBlocks blocks j = [] := if_neg stored.not_used

include small

theorem toNat_inode : (BitVec.ofNat 32 p).toNat = p := by
  have := (stored.fresh p List.mem_cons_self).1
  rw [BitVec.toNat_ofNat]
  omega

theorem inode_self : inodeOf blocks' j = p := by
  unfold inodeOf
  rw [stored.directory.inode, stored.toNat_inode small]

include image

theorem inode_ne_zero : BitVec.ofNat 32 p ≠ 0 := by
  intro zero
  have isZero : p = 0 := by rw [← stored.toNat_inode small, zero]; rfl
  apply (stored.fresh p List.mem_cons_self).2
  exact (image.exact.marked p).2 (.inl (by omega))

theorem used_self : Used (blocks' 2) j := by
  refine ⟨stored.directory.inside, ?_⟩
  rw [stored.directory.inode]
  exact stored.inode_ne_zero image small

omit small in
/-- What the other files own is untouched. -/
theorem kept_owned {b : Nat} (mem : b ∈ slotBlocks blocks k) : blocks' b = blocks b := by
  have data := (image.owned mem).1
  apply stored.kept b _ (by omega) (by omega)
  intro new
  exact image.exact.unowned (stored.fresh b new).2 k mem

theorem slots : slotBlocks blocks' = Function.update (slotBlocks blocks) j (p :: data) := by
  rw [stored.directory.slots fun k b _ => stored.kept_owned image,
    Image.slotBlocks_used (stored.used_self image small), stored.inode_self small, stored.table]

/-- **A file more** keeps the image consistent. -/
theorem image' : Image n blocks' where
  exact := by
    rw [stored.slots image small]
    exact image.exact.give stored.slot_empty stored.nodup
      (fun b new => (stored.fresh b new).2) stored.marks
  inside := by
    intro k b mem
    rw [stored.slots image small] at mem
    by_cases same : k = j
    · rw [same, Function.update_self] at mem
      exact (stored.fresh b mem).1
    · rw [Function.update_of_ne same] at mem
      exact image.inside k b mem
  covered := by
    intro k used
    by_cases same : k = j
    · rw [same, stored.inode_self small, stored.table]
      exact stored.covered
    · have used := (stored.directory.used_ne same).1 used
      rw [stored.directory.inode_ne same used, stored.kept_owned image (Image.inode_mem used)]
      exact image.covered k used
  blanked := stored.directory.blanked (fun zero => absurd zero (stored.inode_ne_zero image small))
    image.blanked
  terminated := stored.directory.terminated stored.short image.terminated

end Stored

namespace Cleared

variable (image : Image n blocks) (cleared : Cleared blocks blocks' j)

include cleared

theorem not_used : ¬ Used (blocks' 2) j := fun used => used.2 cleared.directory.inode

include image

theorem kept_owned {b : Nat} (mem : b ∈ slotBlocks blocks k) : blocks' b = blocks b := by
  have data := (image.owned mem).1
  exact cleared.kept b (by omega) (by omega)

theorem slots : slotBlocks blocks' = Function.update (slotBlocks blocks) j [] := by
  have empty : slotBlocks blocks' j = [] := if_neg cleared.not_used
  rw [cleared.directory.slots fun k b _ => cleared.kept_owned image, empty]

/-- **A file less** keeps the image consistent. -/
theorem image' : Image n blocks' where
  exact := by
    rw [cleared.slots image]
    exact image.exact.drop j cleared.marks
  inside := by
    intro k b mem
    rw [cleared.slots image] at mem
    by_cases same : k = j
    · rw [same, Function.update_self] at mem
      cases mem
    · rw [Function.update_of_ne same] at mem
      exact image.inside k b mem
  covered := by
    intro k used
    have ne : k ≠ j := fun h => cleared.not_used (h ▸ used)
    have used := (cleared.directory.used_ne ne).1 used
    rw [cleared.directory.inode_ne ne used, cleared.kept_owned image (Image.inode_mem used)]
    exact image.covered k used
  blanked := cleared.directory.blanked (fun _ => rfl) image.blanked
  terminated := cleared.directory.terminated (Nat.succ_pos _) image.terminated

end Cleared

end Changes

end Buenos.Fs
