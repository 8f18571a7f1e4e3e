/-
# Fs.FlatImage -- consistent FlatFS images

A used entry of the directory owns its inode's block, the data blocks and the tables of the
file, and the double-indirect block when the file is longer than 135 blocks.  `FlatFile`
says that nothing is named past the end of a file: unused pointers and unused slots of a
table are zero, which is what the allocator goes by.

`FlatImage n blocks` is the consistency of a whole image: what the system and the files own
is marked, and nothing is owned twice.  Blocks that no file owns may be marked too, because
a removal does not free the tables.  What an operation does to an image is one entry's
exchange of blocks: `FlatImage.exchange` covers a file that is made,
one that grows and one that is removed.

`FlatImage.consistent` is the step down to the driver: buffers that were read in from a
consistent image hold a consistent file.
-/
import Buenos.Fs.FlatBlocks
import Buenos.Fs.TfsImage

namespace Buenos.Fs

open Buenos.Lib Buenos.Theory

set_option autoImplicit false

/-! ## Files -/

/-- The number of blocks of the file with this inode; a negative size counts as none. -/
def flatCount (ino : Block) : Nat := blocksOf (fileSize ino).toNat

/-- What the double-indirect pointer leads to. -/
def flatDi (blocks : Nat → Block) (ino : Block) : Block := blocks (ino dblIndirWord).toNat

def flatData (blocks : Nat → Block) (ino : Block) : List Nat :=
  mapped blocks ino (flatDi blocks ino) (flatCount ino)

def flatTables (blocks : Nat → Block) (ino : Block) : List Nat :=
  tabled ino (flatDi blocks ino) (flatCount ino)

def flatDouble (ino : Block) : List Nat :=
  if 135 < flatCount ino then [(ino dblIndirWord).toNat] else []

/-- All blocks of a file but its inode. -/
def flatParts (blocks : Nat → Block) (ino : Block) : List Nat :=
  flatData blocks ino ++ (flatTables blocks ino ++ flatDouble ino)

/-- Nothing is named past the end of the file. -/
structure FlatFile (blocks : Nat → Block) (ino : Block) : Prop where
  bound : flatCount ino ≤ FLATFS_MAX_BLOCKS
  tail : ∀ w, flatCount ino ≤ w → w < 7 → ino (directWord w) = 0
  single : flatCount ino ≤ 7 → ino indirWord = 0
  double : flatCount ino ≤ 135 → ino dblIndirWord = 0
  rest : 135 < flatCount ino → ∀ c, tables (flatCount ino) ≤ c → c < 129 →
    tableAt ino (flatDi blocks ino) c = 0
  slots : ∀ c < tables (flatCount ino), ∀ j < 128, flatCount ino ≤ 7 + 128 * c + j →
    blocks (tableAt ino (flatDi blocks ino) c).toNat j = 0

/-- What the file of entry `j` owns. -/
def flatSlots (blocks : Nat → Block) (j : Nat) : List Nat :=
  if Used (blocks 2) j then inodeOf blocks j :: flatParts blocks (blocks (inodeOf blocks j)) else []

structure FlatImage (n : Nat) (blocks : Nat → Block) : Prop where
  held : Held (· < 3) (Marked blocks) (flatSlots blocks)
  inside : ∀ j, ∀ b ∈ flatSlots blocks j, b < n
  file : ∀ j, Used (blocks 2) j → FlatFile blocks (blocks (inodeOf blocks j))
  blanked : Blanked (blocks 2)
  terminated : Terminated (blocks 2)

section Files

variable {blocks blocks' : Nat → Block} {ino di di' : Block} {k c : Nat}

/-- The double-indirect block only matters to a file that has one. -/
theorem tableAt_di (less : c < tables k) (same : 135 < k → di' = di) :
    tableAt ino di' c = tableAt ino di c := by
  unfold tableAt
  by_cases first : c = 0
  · rw [if_pos first, if_pos first]
  · unfold tables at less
    rw [if_neg first, if_neg first, same (by omega)]

theorem tabled_di (same : 135 < k → di' = di) : tabled ino di' k = tabled ino di k :=
  tabled_congr fun _ less => tableAt_di less same

theorem mapped_di (same : 135 < k → di' = di) : mapped blocks ino di' k = mapped blocks ino di k :=
  mapped_congr (blockAt_congr (fun _ _ _ => rfl) (fun _ less => tableAt_di less same)
    fun _ _ => rfl)

theorem table_mem_parts {b : Nat} (mem : b ∈ flatTables blocks ino) : b ∈ flatParts blocks ino :=
  List.mem_append_right _ (List.mem_append_left _ mem)

theorem data_mem_parts {b : Nat} (mem : b ∈ flatData blocks ino) : b ∈ flatParts blocks ino :=
  List.mem_append_left _ mem

theorem double_mem (large : 135 < flatCount ino) : (ino dblIndirWord).toNat ∈ flatDouble ino := by
  unfold flatDouble
  rw [if_pos large]
  exact List.mem_singleton_self _

theorem double_mem_parts (large : 135 < flatCount ino) :
    (ino dblIndirWord).toNat ∈ flatParts blocks ino :=
  List.mem_append_right _ (List.mem_append_right _ (double_mem large))

section Frame

variable (kept : ∀ b ∈ flatTables blocks ino ++ flatDouble ino, blocks' b = blocks b)

include kept

theorem flatDi_congr (large : 135 < flatCount ino) : flatDi blocks' ino = flatDi blocks ino :=
  kept _ (List.mem_append_right _ (double_mem large))

theorem flatTable_congr (less : c < tables (flatCount ino)) :
    tableAt ino (flatDi blocks' ino) c = tableAt ino (flatDi blocks ino) c :=
  tableAt_di less (flatDi_congr kept)

theorem flatData_congr : flatData blocks' ino = flatData blocks ino :=
  mapped_congr (blockAt_congr (fun _ _ _ => rfl) (fun _ => flatTable_congr kept)
    fun b mem => kept b (List.mem_append_left _ mem))

/-- **Frame.**  What a file owns is read off its inode and its tables. -/
theorem flatParts_congr : flatParts blocks' ino = flatParts blocks ino := by
  have tabs : flatTables blocks' ino = flatTables blocks ino :=
    tabled_congr fun _ => flatTable_congr kept
  unfold flatParts
  rw [tabs, flatData_congr kept]

theorem FlatFile.frame (file : FlatFile blocks ino) : FlatFile blocks' ino where
  bound := file.bound
  tail := file.tail
  single := file.single
  double := file.double
  rest := fun large => by
    rw [flatDi_congr kept large]
    exact file.rest large
  slots := fun c less => by
    have mem : (tableAt ino (flatDi blocks ino) c).toNat ∈ flatTables blocks ino :=
      mem_tabled.2 ⟨c, less, rfl⟩
    rw [flatTable_congr kept less, kept _ (List.mem_append_left _ mem)]
    exact file.slots c less

end Frame

end Files

namespace FlatImage

variable {n : Nat} {blocks blocks' : Nat → Block} {j k b : Nat}

theorem slots_used (used : Used (blocks 2) j) :
    flatSlots blocks j = inodeOf blocks j :: flatParts blocks (blocks (inodeOf blocks j)) :=
  if_pos used

theorem slots_unused (unused : ¬ Used (blocks 2) j) : flatSlots blocks j = [] := if_neg unused

theorem inode_mem (used : Used (blocks 2) j) : inodeOf blocks j ∈ flatSlots blocks j := by
  rw [slots_used used]
  exact List.mem_cons_self

theorem part_mem (used : Used (blocks 2) j)
    (part : b ∈ flatParts blocks (blocks (inodeOf blocks j))) : b ∈ flatSlots blocks j := by
  rw [slots_used used]
  exact List.mem_cons_of_mem _ part

section Owned

variable (image : FlatImage n blocks)

include image

/-- An owned block is a marked data block of the volume. -/
theorem owned (mem : b ∈ flatSlots blocks j) :
    3 ≤ b ∧ b < n ∧ bitmapGet (blocks 1) b = true :=
  ⟨Nat.le_of_not_lt (image.held.outside j b mem), image.inside j b mem,
    (image.held.owned j b mem).2⟩

theorem system (small : b < 3) : bitmapGet (blocks 1) b = true :=
  (image.held.reserved b small).2

theorem inode_inside (used : Used (blocks 2) j) :
    3 ≤ inodeOf blocks j ∧ inodeOf blocks j < n := by
  obtain ⟨above, inside, -⟩ := image.owned (inode_mem used)
  exact ⟨above, inside⟩

/-- The parts of a file are distinct blocks, none of them its inode. -/
theorem parts_nodup (used : Used (blocks 2) j) :
    (inodeOf blocks j :: flatParts blocks (blocks (inodeOf blocks j))).Nodup := by
  rw [← slots_used used]
  exact image.held.nodup j

end Owned

/-- The entries other than `j` and what they own are kept. -/
structure Others (blocks blocks' : Nat → Block) (j : Nat) : Prop where
  inodes : ∀ k < 25, k ≠ j → entryInode (blocks' 2) k = entryInode (blocks 2) k
  owned : ∀ k, k ≠ j → ∀ b ∈ flatSlots blocks k, blocks' b = blocks b

namespace Others

variable (others : Others blocks blocks' j) (ne : k ≠ j)

include others ne

theorem used : Used (blocks' 2) k ↔ Used (blocks 2) k :=
  and_congr_right fun inside => by rw [others.inodes k inside ne]

theorem inode (used : Used (blocks 2) k) : inodeOf blocks' k = inodeOf blocks k := by
  unfold inodeOf
  rw [others.inodes k used.1 ne]

theorem content (used : Used (blocks 2) k) :
    blocks' (inodeOf blocks k) = blocks (inodeOf blocks k) :=
  others.owned k ne _ (inode_mem used)

theorem tables (used : Used (blocks 2) k) :
    ∀ b ∈ flatTables blocks (blocks (inodeOf blocks k)) ++ flatDouble (blocks (inodeOf blocks k)),
      blocks' b = blocks b :=
  fun b mem => others.owned k ne b (part_mem used (List.mem_append_right _ mem))

theorem slots : flatSlots blocks' k = flatSlots blocks k := by
  by_cases used : Used (blocks 2) k
  · rw [slots_used used, slots_used ((others.used ne).2 used), others.inode ne used,
      others.content ne used, flatParts_congr (others.tables ne used)]
  · rw [slots_unused used, slots_unused fun h => used ((others.used ne).1 h)]

end Others

/-- **An exchange** of blocks by one entry keeps the image consistent. -/
theorem exchange (image : FlatImage n blocks) (others : Others blocks blocks' j)
    (nodup : (flatSlots blocks' j).Nodup)
    (fresh : ∀ b ∈ flatSlots blocks' j, b < n ∧ (Marked blocks b → b ∈ flatSlots blocks j))
    (kept : ∀ b, Marked blocks b → b ∉ flatSlots blocks j → Marked blocks' b)
    (taken : ∀ b ∈ flatSlots blocks' j, Marked blocks' b)
    (file : Used (blocks' 2) j → FlatFile blocks' (blocks' (inodeOf blocks' j)))
    (blanked : Blanked (blocks' 2)) (terminated : Terminated (blocks' 2)) :
    FlatImage n blocks' where
  held := by
    have slots : flatSlots blocks' = Function.update (flatSlots blocks) j (flatSlots blocks' j) := by
      funext k
      by_cases same : k = j
      · rw [same, Function.update_self]
      · rw [Function.update_of_ne same, others.slots same]
    rw [slots]
    exact image.held.exchange j nodup (fun b mem => (fresh b mem).2) kept taken
  inside := by
    intro k b mem
    by_cases same : k = j
    · rw [same] at mem
      exact (fresh b mem).1
    · rw [others.slots same] at mem
      exact image.inside k b mem
  file := by
    intro k used
    by_cases same : k = j
    · rw [same] at used ⊢
      exact file used
    · have used := (others.used same).1 used
      rw [others.inode same used, others.content same used]
      exact (image.file k used).frame (others.tables same used)
  blanked := blanked
  terminated := terminated

/-- A change outside the inodes, the tables and the directory. -/
theorem slots_frame (directory : blocks' 2 = blocks 2)
    (kept : ∀ j, Used (blocks 2) j → blocks' (inodeOf blocks j) = blocks (inodeOf blocks j) ∧
      ∀ b ∈ flatTables blocks (blocks (inodeOf blocks j)) ++
        flatDouble (blocks (inodeOf blocks j)), blocks' b = blocks b) :
    flatSlots blocks' = flatSlots blocks := by
  funext j
  have place : inodeOf blocks' j = inodeOf blocks j := by
    unfold inodeOf
    rw [directory]
  unfold flatSlots
  rw [directory, place]
  split
  · rename_i used
    obtain ⟨content, tables⟩ := kept j used
    rw [content, flatParts_congr tables]
  · rfl

/-- A change outside what the files own, the bitmap and the directory. -/
theorem frame (image : FlatImage n blocks) (bitmap : blocks' 1 = blocks 1)
    (directory : blocks' 2 = blocks 2)
    (kept : ∀ j, Used (blocks 2) j → blocks' (inodeOf blocks j) = blocks (inodeOf blocks j) ∧
      ∀ b ∈ flatTables blocks (blocks (inodeOf blocks j)) ++
        flatDouble (blocks (inodeOf blocks j)), blocks' b = blocks b) :
    FlatImage n blocks' := by
  have place : ∀ j, inodeOf blocks' j = inodeOf blocks j := fun j => by
    unfold inodeOf
    rw [directory]
  have slots := slots_frame directory kept
  refine
    { held := ?_
      inside := by rw [slots]; exact image.inside
      file := ?_
      blanked := by rw [directory]; exact image.blanked
      terminated := by rw [directory]; exact image.terminated }
  · rw [slots]
    exact image.held.congr fun b => by rw [Marked, Marked, bitmap]
  · intro j used
    rw [directory] at used
    obtain ⟨content, tables⟩ := kept j used
    rw [place, content]
    exact (image.file j used).frame tables

/-- A volume without files. -/
theorem empty (bitmap : ∀ b < 3, bitmapGet (blocks 1) b = true)
    (directory : ∀ j < 25, entryInode (blocks 2) j = 0 ∧ entryName (blocks 2) j = []) :
    FlatImage n blocks := by
  have unused : ∀ j, ¬ Used (blocks 2) j := fun j used => used.2 (directory j used.1).1
  have none : ∀ j, flatSlots blocks j = [] := fun j => slots_unused (unused j)
  refine
    { held :=
        { nodup := fun j => by rw [none]; exact List.nodup_nil
          apart := fun j k _ => by rw [none]; exact List.disjoint_nil_left _
          outside := fun j b mem => by rw [none] at mem; cases mem
          reserved := fun b system => ?_
          owned := fun j b mem => by rw [none] at mem; cases mem }
      inside := fun j b mem => by rw [none] at mem; cases mem
      file := fun j used => absurd used (unused j)
      blanked := fun j inside _ => (directory j inside).2
      terminated := fun j inside => by rw [(directory j inside).2]; exact Nat.succ_pos _ }
  exact ⟨Nat.lt_trans system (by decide), bitmap b system⟩

end FlatImage

/-! ## Buffers read in from an image -/

namespace Volume

variable {s : Flat} {j : Nat}

section System

variable (ready : s.Ready) (room : 3 ≤ s.totalblocks)

include ready room

theorem readBat : readBlock (BitVec.ofNat 32 FLATFS_ALLOCATION_BLOCK) FlatBuffer.bat s =
    .returned (true, s.didRead 1 .bat) :=
  readBlock_system ready room (by decide) .bat

theorem readMd : readBlock (BitVec.ofNat 32 FLATFS_DIRECTORY_BLOCK) FlatBuffer.md s =
    .returned (true, s.didRead 2 .md) :=
  readBlock_system ready room (by decide) .md

theorem writeBat : storeBat s = .returned (true, s.didWrite 1 (s.buffer .bat)) :=
  writeBuffer_system ready room (by decide) .bat

theorem writeMd : writeBuffer (BitVec.ofNat 32 FLATFS_DIRECTORY_BLOCK) FlatBuffer.md s =
    .returned (true, s.didWrite 2 (s.buffer .md)) :=
  writeBuffer_system ready room (by decide) .md

end System

/-- The buffers hold the file of entry `j`, as it is on the disk. -/
structure Fetched (s : Flat) (j : Nat) : Prop where
  used : Used (s.blocks 2) j
  inode : s.buffer .inode = s.blocks (inodeOf s.blocks j)
  di : 135 < flatCount (s.buffer .inode) → s.buffer .di = flatDi s.blocks (s.buffer .inode)

namespace Fetched

variable (fetched : Fetched s j)

include fetched

theorem fileBlocks : s.fileBlocks (flatCount (s.buffer .inode)) =
    flatData s.blocks (s.buffer .inode) :=
  mapped_di fetched.di

theorem fileTables : s.fileTables (flatCount (s.buffer .inode)) =
    flatTables s.blocks (s.buffer .inode) :=
  tabled_di fetched.di

theorem fileTable {c : Nat} (less : c < tables (flatCount (s.buffer .inode))) :
    s.fileTable c = tableAt (s.buffer .inode) (flatDi s.blocks (s.buffer .inode)) c :=
  tableAt_di less fetched.di

theorem loaded : Loaded s (flatCount (s.buffer .inode)) := fetched.di

variable {n : Nat} (image : FlatImage n s.blocks)

include image

theorem file : FlatFile s.blocks (s.buffer .inode) := by
  rw [fetched.inode]
  exact image.file j fetched.used

theorem part {b : Nat} (mem : b ∈ flatParts s.blocks (s.buffer .inode)) :
    3 ≤ b ∧ b < n ∧ bitmapGet (s.blocks 1) b = true := by
  rw [fetched.inode] at mem
  exact image.owned (FlatImage.part_mem fetched.used mem)

theorem nodup : (flatParts s.blocks (s.buffer .inode)).Nodup := by
  rw [fetched.inode]
  exact (List.nodup_cons.1 (image.parts_nodup fetched.used)).2

/-- The tables past the last one are not named. -/
theorem rest {c : Nat} (late : tables (flatCount (s.buffer .inode)) ≤ c)
    (within : c < limitOf (flatCount (s.buffer .inode))) : s.fileTable c = 0 := by
  have file := fetched.file image
  unfold limitOf at within
  by_cases low : flatCount (s.buffer .inode) ≤ 135
  · rw [if_pos low] at within
    obtain rfl : c = 0 := Nat.lt_one_iff.1 within
    refine file.single ?_
    unfold tables at late
    omega
  · rw [if_neg low] at within
    have large : 135 < flatCount (s.buffer .inode) := Nat.lt_of_not_le low
    unfold Volume.fileTable
    rw [fetched.di large]
    exact file.rest large c late within

end Fetched

/-- **A file read in** with the bitmap is consistent in its buffers. -/
theorem consistent_of_image (image : FlatImage s.totalblocks s.blocks) (fetched : Fetched s j)
    (bat : s.buffer .bat = s.blocks 1) : Consistent s (flatCount (s.buffer .inode)) := by
  have file := fetched.file image
  have nodup := fetched.nodup image
  have part := fun {b : Nat} => fetched.part image (b := b)
  obtain ⟨dataNodup, restNodup, apart⟩ := List.nodup_append.1 nodup
  refine
    { sound :=
        { system := ?_
          nodup := ?_
          known := ?_
          rest := fun c late within => fetched.rest image late within
          slots := ?_ }
      above := ?_
      data := ?_
      nodup := by rw [fetched.fileBlocks]; exact dataNodup
      apart := ?_
      bound := file.bound }
  · intro b small
    rw [marked, bat]
    exact image.system small
  · rw [fetched.fileTables]
    exact (List.nodup_append.1 restNodup).1
  · intro b mem
    rw [fetched.fileTables] at mem
    obtain ⟨above, inside, mark⟩ := part (table_mem_parts mem)
    rw [marked, bat]
    exact ⟨by omega, inside, mark⟩
  · intro c less
    rw [fetched.fileTable less]
    exact file.slots c less
  · intro b mem
    rw [fetched.fileTables] at mem
    exact (part (table_mem_parts mem)).1
  · intro b mem
    rw [fetched.fileBlocks] at mem
    rw [marked, bat]
    exact part (data_mem_parts mem)
  · rw [fetched.fileBlocks, fetched.fileTables]
    exact fun b data tab => apart b data b (List.mem_append_left _ tab) rfl

/-- The double-indirect block of a long file is ready. -/
theorem doubleReady_of_image (image : FlatImage s.totalblocks s.blocks) (fetched : Fetched s j)
    (bat : s.buffer .bat = s.blocks 1) (large : 135 < flatCount (s.buffer .inode)) :
    DoubleReady s (flatCount (s.buffer .inode)) where
  above := (fetched.part image (double_mem_parts large)).1
  inside := (fetched.part image (double_mem_parts large)).2.1
  marked := by
    rw [marked, bat]
    exact (fetched.part image (double_mem_parts large)).2.2
  apart := by
    rw [fetched.fileTables]
    intro mem
    have nodup := (List.nodup_append.1 (List.nodup_append.1 (fetched.nodup image)).2.1).2.2
    exact nodup _ mem _ (double_mem large) rfl
  content := by
    rw [if_neg (by omega), fetched.di large]
    rfl

/-- The buffers name the `k` blocks of a file, and nothing past its end. -/
structure Spread (s : Flat) (k : Nat) : Prop where
  bound : k ≤ FLATFS_MAX_BLOCKS
  tail : Tail s k
  rest : ∀ c, tables k ≤ c → c < limitOf k → s.fileTable c = 0
  slots : ∀ c < tables k, ∀ j < 128, k ≤ 7 + 128 * c + j →
    s.blocks (s.fileTable c).toNat j = 0
  loaded : Loaded s k
  none : k ≤ 135 → s.buffer .inode dblIndirWord = 0

theorem Fetched.spread {n : Nat} (image : FlatImage n s.blocks) (fetched : Fetched s j) :
    Spread s (flatCount (s.buffer .inode)) where
  bound := (fetched.file image).bound
  tail := (fetched.file image).tail
  rest := fun _ late within => fetched.rest image late within
  slots := fun c less => by
    rw [fetched.fileTable less]
    exact (fetched.file image).slots c less
  loaded := fetched.loaded
  none := (fetched.file image).double

theorem Fetched.located (image : FlatImage s.totalblocks s.blocks) (fetched : Fetched s j) :
    Located s (flatCount (s.buffer .inode)) where
  tables := fun x mem => by
    rw [fetched.fileTables] at mem
    exact (fetched.part image (table_mem_parts mem)).2.1
  data := fun x mem => by
    rw [fetched.fileBlocks] at mem
    exact (fetched.part image (data_mem_parts mem)).2.1
  apart := by
    rw [fetched.fileBlocks, fetched.fileTables]
    intro x data table
    exact (List.nodup_append.1 (fetched.nodup image)).2.2 x data x
      (List.mem_append_left _ table) rfl
  bound := (fetched.file image).bound

/-- **A file in the buffers**, once its tables and its inode are stored, is a file of the
image. -/
theorem flatFile_of_buffers (blocks : Nat → Block) {k : Nat} (spread : Spread s k)
    (count : flatCount (s.buffer .inode) = k)
    (kept : ∀ b ∈ s.fileTables k ++ flatDouble (s.buffer .inode), blocks b = s.blocks b) :
    FlatFile blocks (s.buffer .inode) ∧ flatData blocks (s.buffer .inode) = s.fileBlocks k ∧
      flatParts blocks (s.buffer .inode) =
        s.fileBlocks k ++ (s.fileTables k ++ flatDouble (s.buffer .inode)) := by
  have double : 135 < k → flatDi blocks (s.buffer .inode) = s.buffer .di := by
    intro large
    rw [spread.loaded large]
    rw [← count] at large
    exact kept _ (List.mem_append_right _ (double_mem large))
  have table : ∀ c < tables k, tableAt (s.buffer .inode) (flatDi blocks (s.buffer .inode)) c =
      s.fileTable c := fun c less => tableAt_di less double
  constructor
  · refine
      { bound := by rw [count]; exact spread.bound
        tail := by rw [count]; exact spread.tail
        single := ?_
        double := by rw [count]; exact spread.none
        rest := ?_
        slots := ?_ }
    · rw [count]
      intro small
      refine spread.rest 0 (Nat.le_of_eq (tables_of_le small)) ?_
      unfold limitOf
      split <;> omega
    · rw [count]
      intro large c late within
      rw [double large]
      exact spread.rest c late (by rw [limitOf, if_neg (by omega)]; exact within)
    · rw [count]
      intro c less
      have mem : (s.fileTable c).toNat ∈ s.fileTables k := mem_tabled.2 ⟨c, less, rfl⟩
      rw [table c less, kept _ (List.mem_append_left _ mem)]
      exact spread.slots c less
  · have tabs : flatTables blocks (s.buffer .inode) = s.fileTables k := by
      unfold flatTables fileTables
      rw [count]
      exact tabled_di double
    have data : flatData blocks (s.buffer .inode) = s.fileBlocks k := by
      unfold flatData fileBlocks
      rw [count]
      exact mapped_congr (blockAt_congr (fun _ _ _ => rfl) table
        fun b mem => kept b (List.mem_append_left _ mem))
    refine ⟨data, ?_⟩
    unfold flatParts
    rw [data, tabs]

end Volume

/-- A mounted FlatFS volume with a consistent image, not in use. -/
structure FlatMounted (s : Flat) : Prop where
  ready : s.Ready
  free : 0 < s.lock
  room : 3 ≤ s.totalblocks
  image : FlatImage s.totalblocks s.blocks

theorem FlatMounted.same {s t : Flat} (mounted : FlatMounted s) (same : Volume.Same s t)
    (image : FlatImage s.totalblocks t.blocks) : FlatMounted t where
  ready := mounted.ready.same same
  free := by rw [same.lock]; exact mounted.free
  room := by rw [same.totalblocks]; exact mounted.room
  image := by rw [same.totalblocks]; exact image

end Buenos.Fs
