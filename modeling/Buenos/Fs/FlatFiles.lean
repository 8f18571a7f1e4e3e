/-
# Fs.FlatFiles -- a FlatFS volume as a set of files

What the driver is for: a file has a name and bytes, and a write may start anywhere up to its end
and go past it.  `FlatStep` says what a call may reply and how it changes the files, without
blocks, tables, bitmaps or directories.

`FlatHolds blocks files` reads the files off an image.  `flat_refines` is the refinement, for the
runs in which no allocation is refused: the calls that find the blocks they need (`FlatRoom`)
reply and change the files as `FlatStep` says, and in every other call an allocation is refused.
-/
import Buenos.Fs.FlatRuns

namespace Buenos.Fs

open Buenos.Lib Buenos.Theory

set_option autoImplicit false

/-! ## Files -/

/-- A file with `data` put in at offset `off`; it gets longer when that goes past its end. -/
def File.splice (file : File) (off : Nat) (data : List Byte)
    (within : off ≤ file.bytes.length) : File where
  name := file.name
  size := max file.size ((off + data.length : Nat) : Int)
  bytes := file.bytes.take off ++ data ++ file.bytes.drop (off + data.length)
  full := by
    have full := file.full
    simp only [List.length_append, List.length_take, List.length_drop]
    omega

/-- There is no place for another file. -/
def Files.Full (files : Files) : Prop :=
  ∃ ids : List Nat, ids.Nodup ∧ ids.length = FLATFS_MAX_FILES ∧ ∀ i ∈ ids, files i ≠ none

/-- **What the calls do to the files**, if no allocation is refused. -/
inductive FlatStep (files : Files) : TfsOp → TfsReply → Files → Prop
  | created {filename : Name} {size : CInt} {i : Nat} :
      (∀ k file, files k = some file → file.name ≠ filename) → files i = none →
      FlatStep files (.create filename size) (VFS_OK, [])
        (Function.update files i (some (.zeros filename size.val)))
  | notCreated {filename : Name} {size : CInt} :
      (∃ k file, files k = some file ∧ file.name = filename) ∨ files.Full ∨ size.val < 0 ∨
        (FLATFS_MAX_BLOCKS * FLATFS_BLOCK_SIZE : Nat) < size.val →
      FlatStep files (.create filename size) (VFS_ERROR, []) files
  | opened {filename : Name} {i : Nat} {file : File} :
      files i = some file → file.name = filename →
      FlatStep files (.openFile filename) (i, []) files
  | notFound {filename : Name} : (∀ k file, files k = some file → file.name ≠ filename) →
      FlatStep files (.openFile filename) (VFS_NOT_FOUND, []) files
  | read {fileid n off : CInt} {i : Nat} {file : File} : fileid.val = i → files i = some file →
      FlatStep files (.read fileid n off)
        (if 0 ≤ off.val ∧ off.val ≤ file.size then
          (min n.val (file.size - off.val), (file.bytes.drop off.val.toNat).take n.val.toNat)
        else (VFS_INVALID_PARAMS, [])) files
  | written {fileid : CInt} {buffer : Nat → Byte} {n off : CInt} {i start : Nat} {file : File}
      (within : start ≤ file.bytes.length) : fileid.val = i → files i = some file →
      0 < n.val → off.val = start → off.val ≤ file.size →
      FlatStep files (.write fileid buffer n off) (n.val, [])
        (Function.update files i
          (some (file.splice start ((List.range n.val.toNat).map buffer) within)))
  | notWritten {fileid : CInt} {buffer : Nat → Byte} {n off : CInt} {i : Nat} {file : File} :
      fileid.val = i → files i = some file →
      n.val = 0 ∨ off.val < 0 ∨ file.size < off.val →
      FlatStep files (.write fileid buffer n off)
        (if off.val < 0 then VFS_INVALID_PARAMS else if n.val = 0 then 0 else VFS_ERROR, []) files

/-! ## The files of an image -/

/-- The file of entry `j`. -/
def flatFileOf (blocks : Nat → Block) (j : Nat) : File where
  name := entryName (blocks 2) j
  size := fileSize (blocks (inodeOf blocks j))
  bytes := flatBytes blocks (blocks (inodeOf blocks j))
  full := by rw [flatBytes, List.length_map, List.length_range]

theorem flatFileOf_name (blocks : Nat → Block) (j : Nat) :
    (flatFileOf blocks j).name = entryName (blocks 2) j := rfl

theorem flatFileOf_size (blocks : Nat → Block) (j : Nat) :
    (flatFileOf blocks j).size = fileSize (blocks (inodeOf blocks j)) := by
  simp only [flatFileOf]

theorem flatFileOf_bytes (blocks : Nat → Block) (j : Nat) :
    (flatFileOf blocks j).bytes = flatBytes blocks (blocks (inodeOf blocks j)) := by
  simp only [flatFileOf]

def FlatHolds (blocks : Nat → Block) (files : Files) : Prop :=
  Filed blocks (flatFileOf blocks) files

section Contents

variable {n : Nat} {blocks blocks' : Nat → Block} {files : Files} {ino : Block} {j k p q : Nat}

/-- The lookups of a file give its data blocks. -/
theorem flatData_resolve (blocks : Nat → Block) (ino : Block) :
    flatData blocks ino = (List.range (flatCount ino)).map fun b => (resolve blocks ino b).toNat :=
  List.map_congr_left fun b _ => by rw [resolve_blockAt, flatDi]

/-- The block of a byte inside the file. -/
theorem resolve_mem (below : q < (fileSize ino).toNat) :
    (resolve blocks ino (q / 512)).toNat ∈ flatData blocks ino := by
  rw [flatData_resolve]
  exact List.mem_map_of_mem (List.mem_range.2 (block_lt below))

/-- The contents of a file depend on its inode and on the blocks it owns. -/
theorem flatBytes_congr (kept : ∀ b ∈ flatParts blocks ino, blocks' b = blocks b) :
    flatBytes blocks' ino = flatBytes blocks ino := by
  have tables : flatData blocks' ino = flatData blocks ino :=
    flatData_congr fun b mem => kept b (List.mem_append_right _ mem)
  rw [flatData_resolve, flatData_resolve, List.map_inj_left] at tables
  refine List.map_congr_left fun q mem => ?_
  have below := List.mem_range.1 mem
  rw [flatByte, flatByte, tables _ (List.mem_range.2 (block_lt below)),
    kept _ (data_mem_parts (resolve_mem below))]

/-- A file whose entry and blocks are kept is kept. -/
theorem flatFileOf_congr (used : Used (blocks 2) k)
    (name : entryName (blocks' 2) k = entryName (blocks 2) k)
    (place : inodeOf blocks' k = inodeOf blocks k)
    (kept : ∀ b ∈ flatSlots blocks k, blocks' b = blocks b) :
    flatFileOf blocks' k = flatFileOf blocks k := by
  have inode := kept _ (FlatImage.inode_mem used)
  have bytes := flatBytes_congr fun b mem => kept b (FlatImage.part_mem used mem)
  unfold flatFileOf
  simp only [name, place, inode, bytes]

/-- A change of no block in use is no change of the files. -/
theorem FlatHolds.keep (holds : FlatHolds blocks files) (image : FlatImage n blocks)
    (kept : ∀ b, Marked blocks b → blocks' b = blocks b) : FlatHolds blocks' files := by
  have directory := kept 2 (image.held.reserved 2 (by decide))
  have place : ∀ k, inodeOf blocks' k = inodeOf blocks k := fun k => by
    unfold inodeOf
    rw [directory]
  refine Filed.keep holds directory fun k used => ?_
  exact flatFileOf_congr used (by rw [directory]) (place k)
    fun b mem => kept b (image.held.owned k b mem)

/-- **One entry's file** is new or changed. -/
theorem FlatHolds.put (holds : FlatHolds blocks files) (image : FlatImage n blocks')
    (others : FlatImage.Others blocks blocks' j) (used : Used (blocks' 2) j)
    (place : Used (blocks 2) j → inodeOf blocks j = inodeOf blocks' j)
    (names : ∀ k < 25, k ≠ j → entryName (blocks' 2) k = entryName (blocks 2) k) :
    FlatHolds blocks' (Function.update files (inodeOf blocks' j) (some (flatFileOf blocks' j))) := by
  refine Filed.put holds used place (fun k ne => others.used ne) fun k ne old =>
    ⟨others.inode ne old, fun same => ?_,
      flatFileOf_congr old (names k old.1 ne) (others.inode ne old) (others.owned k ne)⟩
  have used' := (others.used ne).2 old
  have mem := FlatImage.inode_mem used'
  rw [others.inode ne old, same] at mem
  exact image.held.apart k j ne mem (FlatImage.inode_mem used)

end Contents

/-! ## Reading a file -/

namespace Volume

theorem lockP_refused : Prog.Fixes (fun s : Flat => s.refused) lockP := by
  intro s a t ran
  simp only [lockP] at ran
  split at ran
  · cases ran
    rfl
  · cases ran

theorem unlock_refused {α : Type} (result : α) :
    Prog.Fixes (fun s : Flat => s.refused) (unlock result) :=
  .bind (.modify fun _ => rfl) fun _ => .pure _

theorem flatfsOpen_refused (filename : Name) :
    Prog.Fixes (fun s : Flat => s.refused) (flatfsOpen filename) := by
  refine .bind lockP_refused fun _ => .bind (readBlock_refused _ _) fun loaded =>
    .ite (.bind (.gets _) fun md => ?_) (unlock_refused _)
  cases findEntry md filename with
  | none => exact unlock_refused _
  | some j => exact unlock_refused _

theorem flatfsRead_refused (fileid n off : CInt) :
    Prog.Fixes (fun s : Flat => s.refused) (flatfsRead fileid n off) :=
  flatfsRead_fixes readBlock_refused lockP_refused unlock_refused fileid n off

/-- `flatfs_read` inside the file in the inode buffer. -/
theorem readBlocks_moves {s : Flat} {j off m : Nat} (ready : s.Ready)
    (image : FlatImage s.totalblocks s.blocks) (used : Used (s.blocks 2) j)
    (inode : s.buffer .inode = s.blocks (inodeOf s.blocks j)) (positive : 0 < m)
    (short : off + m < 0x80000000) (inside : (off + m - 1) / 512 < flatCount (s.buffer .inode)) :
    ∃ t, readBlocks m off s =
      .returned (((m : Int), extent (flatByte s.blocks (s.buffer .inode)) off m), t) := by
  obtain ⟨v, ran, same, disk, kept, -, fetched⟩ := loadDouble_cases ready image used inode
  have image' : FlatImage v.totalblocks v.blocks := by
    rw [same.totalblocks, disk]
    exact image
  rw [← kept] at inside
  obtain ⟨u, t, looked, looped, -, -⟩ := readLoop_moves (ready.same same) (fetched.located image')
    fetched.loaded positive inside
  have begins : ((off : Int).tdiv (FLATFS_BLOCK_SIZE : Int)).toNat = off / 512 := firstBlock off
  have ends : (toInt32 ((off : Int) + m - 1)).tdiv (FLATFS_BLOCK_SIZE : Int) =
      ((off + m - 1) / 512 : Nat) := lastBlock short positive
  have rounds : (((off + m - 1) / 512 : Nat) + 1 - (off / 512 : Nat) : Int).toNat =
      (off + m - 1) / 512 + 1 - off / 512 := by omega
  rw [disk, kept] at looped
  refine ⟨{ t with lock := t.lock + 1 }, ?_⟩
  simp only [readBlocks, begins, ends, rounds]
  rw [Prog.bind_of_returned ran, if_pos rfl, Prog.bind_of_returned looked,
    Prog.bind_of_returned looped]
  rfl

end Volume

/-! ## Writing without room -/

namespace Volume

variable {s : Flat} {datasize offset : CInt}

/-- Only allocations are refused. -/
theorem writeRest_refused (fileid : Word) (buffer : Nat → Byte) (grown : Bool) :
    Prog.Fixes (fun s : Flat => s.refused) (writeRest fileid buffer datasize offset grown) := by
  refine .ite (.bind (flatfsGetblock_fixes readBlock_refused _ _) fun _ => ?_) (unlock_refused _)
  refine .bind (writeLoop_fixes readBlock_refused writeBuffer_refused (fun _ _ => rfl) _ _ _ _ _ _
    _ _) fun result => ?_
  cases result with
  | none => exact unlock_refused _
  | some written =>
      refine .bind (.gets _) fun old => .ite (.bind (.modify fun _ => rfl) fun _ => ?_)
        (unlock_refused _)
      exact .bind (writeBuffer_refused _ _) fun stored => .ite (unlock_refused _) (unlock_refused _)

/-- `flatfs_alloc_blocks` finds too few blocks. -/
theorem growRest_short {k : Nat} (b2 : Nat) (ready : s.Ready) (room : 3 ≤ s.totalblocks)
    (file : Consistent s k) (some : 0 < k) (few : k ≤ 4096)
    (double : 135 < k + (b2 - (k - 1)) → DoubleReady s k)
    (short : s.room < b2 - (k - 1) + (tables (k + (b2 - (k - 1))) - tables k)) :
    ∃ t, growRest b2 (k - 1) s = .returned (true, t) ∧ s.refused < t.refused := by
  have most : s.room ≤ 4096 := Nat.le_trans (free_le _ _) ready.small
  have more : k - 1 < b2 := by
    by_contra none
    rw [Nat.sub_eq_zero_of_le (Nat.not_lt.1 none), Nat.add_zero, Nat.sub_self] at short
    exact absurd short (Nat.not_lt_zero _)
  rw [growRest, if_pos more, show k - 1 + 1 = k by omega]
  have bound : k + min (b2 - (k - 1)) (s.room + 1) ≤ FLATFS_MAX_BLOCKS := by
    unfold FLATFS_MAX_BLOCKS FLATFS_BLOCKS_DIRECT FLATFS_BLOCKS_SINDIR FLATFS_BLOCKS_DINDIR
    omega
  rcases flatfsAllocBlocks_cases ready room file.sound file.above (n := b2 - (k - 1)) (by omega)
    bound double with ⟨t, data, tabs, -, extended⟩ | ⟨t, ran, -, refused⟩
  · have counted := congrArg List.length extended.tables
    have room' := extended.took.room
    have count := extended.count
    simp only [fileTables, tabled_length, List.length_append] at counted room'
    omega
  · refine ⟨t, ?_, refused.refused⟩
    rw [Prog.bind_of_returned ran]
    rfl

/-- After the first blocks too few are left for the rest, also past the longest file, where the
last block may have wrapped. -/
theorem far_after {k m final left : Nat} (more : k < m) (few : k ≤ 4096) (most : left ≤ 4096)
    (ends : final + 1 = m ∨ FLATFS_MAX_BLOCKS < m ∧ FLATFS_MAX_BLOCKS ≤ final)
    (short : left < m - max k 1 + (tables m - tables (max k 1))) :
    max k 1 - 1 = k - 1 ∧
      left < final - (max k 1 - 1) +
        (tables (max k 1 + (final - (max k 1 - 1))) - tables (max k 1)) ∧
      (135 < max k 1 + (final - (max k 1 - 1)) → 135 < m) := by
  rcases ends with whole | ⟨beyond, far⟩
  · have sum : max k 1 + (final - (max k 1 - 1)) = m := by omega
    rw [sum]
    omega
  · unfold FLATFS_MAX_BLOCKS FLATFS_BLOCKS_DIRECT FLATFS_BLOCKS_SINDIR FLATFS_BLOCKS_DINDIR at *
    omega

/-- **A write that needs more blocks than are free** is refused one of them. -/
theorem writeGrow_short {j : Nat} (ready : s.Ready) (room : 3 ≤ s.totalblocks)
    (image : FlatImage s.totalblocks s.blocks) (fetched : Fetched s j)
    (inside : WriteInside (s.buffer .inode) datasize offset)
    (full : free (s.blocks 1) s.totalblocks < writeNeed (s.buffer .inode) datasize offset) :
    ∃ a t, writeGrow (finalBlock datasize offset) s = .returned (a, t) ∧ s.refused < t.refused := by
  have more := grows_of_need (Nat.zero_lt_of_lt full)
  rcases writeGrow_cases ready room inside more with
    ⟨t, ran, -, refused⟩ | ⟨t, u, first, dbl, grow, -, firstCount, filled, firstNone, dblCount,
      filled', dblNone⟩
  · exact ⟨false, t, ran, refused.refused⟩
  · have fetched' : Fetched (s.didRead 1 FlatBuffer.bat) j :=
      ⟨fetched.used, by simpa using fetched.inode, by simpa using fetched.di⟩
    have inode : (s.didRead 1 FlatBuffer.bat).buffer .inode = s.buffer .inode := by simp
    have bat : (s.didRead 1 FlatBuffer.bat).buffer .bat = (s.didRead 1 FlatBuffer.bat).blocks 1 := by
      simp
    have image' : FlatImage s.totalblocks (s.didRead 1 FlatBuffer.bat).blocks := image
    have file := consistent_of_image (s := s.didRead 1 FlatBuffer.bat) image fetched' bat
    have spread := fetched'.spread image'
    have large := doubleReady_of_image (s := s.didRead 1 FlatBuffer.bat) image fetched' bat
    rw [inode] at file spread large
    obtain ⟨stage, double, -, -⟩ := staged_of_filled file spread large more firstCount filled
      firstNone dblCount filled' dblNone
    have took := stage.took
    have left := took.room
    have roomEq : (s.didRead 1 FlatBuffer.bat).room = free (s.blocks 1) s.totalblocks := by
      simp [Volume.room]
    rw [List.length_append, firstCount, dblCount, roomEq] at left
    have few : flatCount (s.buffer .inode) ≤ 4096 :=
      Nat.le_trans (fetched.count_le image) ready.small
    have ready' := (ready.same (.didRead 1 .bat)).same took.same
    have most : u.room ≤ 4096 := Nat.le_trans (free_le _ _) ready'.small
    have short := mt (enough_after more left).2 (Nat.not_le.2 full)
    obtain ⟨last, far, long⟩ := far_after more few most inside.final (Nat.not_le.1 short)
    obtain ⟨v, ran, refused⟩ := growRest_short (finalBlock datasize offset) ready'
      (by rw [took.same.totalblocks]; exact room) stage.file
      (Nat.lt_of_lt_of_le Nat.zero_lt_one (Nat.le_max_right _ _))
      (Nat.max_le.2 ⟨few, by decide⟩) (fun large => double (long large)) far
    rw [last] at ran
    refine ⟨true, v, grow.trans ran, ?_⟩
    rw [took.refused] at refused
    exact refused

end Volume

section Calls

variable {s : Flat} (mounted : FlatMounted s) {j : Nat} (used : Used (s.blocks 2) j)
  {fileid : CInt} (isFile : fileid.val = inodeOf s.blocks j)

include mounted used isFile

/-- **`flatfs_read`** gives the bytes of the file. -/
theorem flatfsRead_cases (n off : CInt) (nonneg : 0 ≤ n.val) :
    ∃ t, flatfsRead fileid n off s = .returned
        (if 0 ≤ off.val ∧ off.val ≤ fileSize (s.blocks (inodeOf s.blocks j)) then
          (min n.val (fileSize (s.blocks (inodeOf s.blocks j)) - off.val),
            ((flatBytes s.blocks (s.blocks (inodeOf s.blocks j))).drop off.val.toNat).take
              n.val.toNat)
        else (VFS_INVALID_PARAMS, []), t) := by
  obtain ⟨above, within⟩ := mounted.image.inode_inside used
  have small := mounted.ready.small
  have number := fileid_toNat isFile (by omega)
  have loaded : readBlock (BitVec.ofInt 32 fileid.val) FlatBuffer.inode s.locked =
      .returned (true, s.locked.didRead (BitVec.ofInt 32 fileid.val).toNat .inode) :=
    Volume.readBlock_ready mounted.ready.locked FlatBuffer.inode (by rw [number]; exact within)
  rw [number] at loaded
  have bound := (mounted.image.file j used).bound
  rw [flatfsRead, Prog.bind_of_returned (Volume.lockP_free mounted.free), Prog.bind_gets_apply,
    if_neg (by rw [Volume.locked_totalblocks]; omega), Prog.bind_of_returned loaded]
  simp only [if_true, Prog.bind_gets_apply, Volume.didRead_buffer, Function.update_self,
    Volume.locked_blocks]
  have read := fun o m => @Volume.readBlocks_moves
    (s.locked.didRead (inodeOf s.blocks j) FlatBuffer.inode) j o m
    (mounted.ready.locked.same (.didRead _ _)) mounted.image used (by simp)
  simp only [Volume.didRead_buffer, Function.update_self, Volume.locked_blocks,
    Volume.didRead_blocks] at read
  have counted : flatCount (s.blocks (inodeOf s.blocks j)) =
      blocksOf (fileSize (s.blocks (inodeOf s.blocks j))).toNat := rfl
  have slice : ∀ o m, o + m ≤ (fileSize (s.blocks (inodeOf s.blocks j))).toNat →
      ((flatBytes s.blocks (s.blocks (inodeOf s.blocks j))).drop o).take m =
        extent (flatByte s.blocks (s.blocks (inodeOf s.blocks j))) o m := fun o m =>
    extent_drop_take _
  have length : (flatBytes s.blocks (s.blocks (inodeOf s.blocks j))).length =
      (fileSize (s.blocks (inodeOf s.blocks j))).toNat := by simp [flatBytes]
  change ∃ t, (if off.val < 0 ∨ fileSize (s.blocks (inodeOf s.blocks j)) < off.val then _
    else if min n.val (fileSize (s.blocks (inodeOf s.blocks j)) - off.val) = 0 then _
    else readBlocks (min n.val (fileSize (s.blocks (inodeOf s.blocks j)) - off.val)) off.val :
      Prog Flat (Int × List Byte)) _ = _
  rw [counted] at bound read
  generalize fileSize (s.blocks (inodeOf s.blocks j)) = size at *
  generalize n.val = n at nonneg ⊢
  generalize off.val = off
  by_cases outside : off < 0 ∨ size < off
  · rw [if_pos outside, if_neg (by omega)]
    exact ⟨_, rfl⟩
  · have inFile : 0 ≤ off ∧ off ≤ size := by omega
    rw [if_neg outside, if_pos inFile]
    obtain ⟨o, rfl⟩ := Int.eq_ofNat_of_zero_le inFile.1
    obtain ⟨m, moved⟩ := Int.eq_ofNat_of_zero_le (a := min n (size - o)) (by omega)
    have taken : ((flatBytes s.blocks (s.blocks (inodeOf s.blocks j))).drop o).take n.toNat =
        extent (flatByte s.blocks (s.blocks (inodeOf s.blocks j))) o m := by
      rw [← slice o m (by omega), List.take_eq_take_iff, List.length_drop, length]
      omega
    rw [moved, Int.toNat_natCast, taken]
    by_cases nothing : (m : Int) = 0
    · obtain rfl : m = 0 := by omega
      rw [if_pos nothing]
      exact ⟨_, rfl⟩
    · rw [if_neg nothing]
      have most : size.toNat ≤ 8457728 := by
        unfold blocksOf FLATFS_MAX_BLOCKS FLATFS_BLOCKS_DIRECT FLATFS_BLOCKS_SINDIR
          FLATFS_BLOCKS_DINDIR at bound
        omega
      exact read o m (by omega) (by omega) (block_lt (by omega))

/-- **`flatfs_write`** without room. -/
theorem flatfsWrite_short {n off : CInt} (buffer : Nat → Byte)
    (inside : WriteInside (s.blocks (inodeOf s.blocks j)) n off)
    (full : Lib.free (s.blocks 1) s.totalblocks <
      writeNeed (s.blocks (inodeOf s.blocks j)) n off) :
    (flatfsWrite fileid buffer n off).Keeps s fun _ t => s.refused < t.refused := by
  obtain ⟨v, step, same, disk, none, fetched⟩ := flatfsWrite_start mounted used isFile buffer inside
  have inode := fetched.inode
  have total : v.totalblocks = s.totalblocks := same.totalblocks
  rw [disk] at inode
  rw [← inode] at inside full
  obtain ⟨grown, t, grow, refused⟩ := Volume.writeGrow_short (mounted.ready.locked.same same)
    (by rw [total]; exact mounted.room) (by rw [total, disk]; exact mounted.image) fetched inside
    (by rw [disk, total]; exact full)
  intro result u ran
  rw [step, Prog.bind_of_returned grow] at ran
  have kept := Volume.writeRest_refused _ _ _ _ result u ran
  dsimp only at kept
  omega

/-- A call that is refused at once. -/
theorem flatfsWrite_outside {n off : CInt} (buffer : Nat → Byte) (nonneg : 0 ≤ n.val)
    (outside : n.val = 0 ∨ off.val < 0 ∨ fileSize (s.blocks (inodeOf s.blocks j)) < off.val) :
    ∃ t, flatfsWrite fileid buffer n off s = .returned
        (if off.val < 0 then VFS_INVALID_PARAMS else if n.val = 0 then 0 else VFS_ERROR, t) ∧
      Volume.Unchanged s t ∧ t.refused = s.refused := by
  obtain ⟨above, within⟩ := mounted.image.inode_inside used
  have onVolume : (fileid.val < 2 ∨ (s.totalblocks : Int) < fileid.val ∨ off.val < 0) ↔
      off.val < 0 := by omega
  by_cases refused : FlatRefused s fileid n off
  · obtain ⟨t, ran, unchanged, none⟩ := Volume.flatfsWrite_none mounted.free buffer refused
    refine ⟨t, ?_, unchanged, none⟩
    rw [ran, if_congr onVolume rfl rfl]
    by_cases low : off.val < 0
    · rw [if_pos low, if_pos low]
    · unfold FlatRefused at refused
      rw [if_neg low, if_neg low, if_pos (show n.val = 0 by omega)]
  · unfold FlatRefused at refused
    rw [if_neg (by omega), if_neg (by omega)]
    exact flatfsWrite_past mounted used isFile buffer (by omega) (by omega) (by omega)

end Calls

/-! ## What a call does to the files -/

section Changes

variable {n : Nat} {blocks blocks' : Nat → Block} {files : Files} {j p : Nat}

/-- A new file holds zeros. -/
theorem flatFileOf_created {filename : Name} {size : CInt} (small : n ≤ 4096)
    (image : FlatImage n blocks) (created : FlatCreated n blocks blocks' filename size j p)
    (zeros : ∀ x ∈ flatData blocks' (blocks' p), blocks' x = zeroblock) :
    flatFileOf blocks' j = .zeros filename size.val := by
  obtain ⟨-, place⟩ := created.entry small image
  have name : entryName (blocks' 2) j = stringcopy filename TFS_FILENAME_MAX :=
    created.directory.name
  have bytes : flatBytes blocks' (blocks' p) = List.replicate size.val.toNat 0 := by
    rw [List.eq_replicate_iff]
    refine ⟨by rw [flatBytes, List.length_map, List.length_range, created.size], fun b mem => ?_⟩
    obtain ⟨q, below, rfl⟩ := List.mem_map.1 mem
    rw [flatByte, zeros _ (resolve_mem (List.mem_range.1 below))]
    exact Block.byte_zero _
  unfold flatFileOf File.zeros
  simp only [name, place, created.size, bytes]

/-- **A file more.** -/
theorem FlatHolds.create {filename : Name} {size : CInt} (holds : FlatHolds blocks files)
    (small : n ≤ 4096) (image : FlatImage n blocks)
    (created : FlatCreated n blocks blocks' filename size j p)
    (zeros : ∀ x ∈ flatData blocks' (blocks' p), blocks' x = zeroblock) :
    files p = none ∧
      FlatHolds blocks' (Function.update files p (some (.zeros filename size.val))) := by
  obtain ⟨used, place⟩ := created.entry small image
  obtain ⟨-, others⟩ := created.slots small image
  constructor
  · refine Filed.vacant holds fun k used => ?_
    rintro rfl
    exact (created.fresh _ List.mem_cons_self).2 (image.held.owned k _ (FlatImage.inode_mem used))
  · have put := holds.put (created.image' small image) others used
      (fun old => absurd created.free old.2) created.directory.names
    rwa [place, flatFileOf_created small image created zeros] at put

/-- A file after a write holds the data in its place. -/
theorem flatFileOf_written {off m : Nat} {buffer : Nat → Byte}
    (within : off ≤ (flatFileOf blocks j).bytes.length)
    (size : fileSize (blocks (inodeOf blocks j)) = (blocks (inodeOf blocks j) 0).toNat)
    (directory : blocks' 2 = blocks 2)
    (small : max (blocks (inodeOf blocks j) 0).toNat (off + m) < 0x80000000)
    (grown : (blocks' (inodeOf blocks j) 0).toNat =
      max (blocks (inodeOf blocks j) 0).toNat (off + m))
    (spliced : ∀ q < max (blocks (inodeOf blocks j) 0).toNat (off + m),
      flatByte blocks' (blocks' (inodeOf blocks j)) q =
        if off ≤ q ∧ q < off + m then buffer (q - off)
        else flatByte blocks (blocks (inodeOf blocks j)) q) :
    flatFileOf blocks' j =
      (flatFileOf blocks j).splice off ((List.range m).map buffer) within := by
  have place : inodeOf blocks' j = inodeOf blocks j := by
    unfold inodeOf
    rw [directory]
  have size' : fileSize (blocks' (inodeOf blocks j)) =
      (max (blocks (inodeOf blocks j) 0).toNat (off + m) : Nat) := by
    rw [fileSize, grown, toInt32_eq (by omega) (by omega)]
  have start : off ≤ (blocks (inodeOf blocks j) 0).toNat := by
    simpa [flatFileOf, flatBytes, size] using within
  have bytes : flatBytes blocks' (blocks' (inodeOf blocks j)) =
      (flatBytes blocks (blocks (inodeOf blocks j))).take off ++ (List.range m).map buffer ++
        (flatBytes blocks (blocks (inodeOf blocks j))).drop (off + m) := by
    unfold flatBytes
    rw [size', size, Int.toNat_natCast, Int.toNat_natCast]
    refine List.ext_getElem (by simp; omega) fun q below _ => ?_
    rw [List.getElem_map, List.getElem_range, spliced q (by simpa using below)]
    -- before the data, in it or after it
    simp only [List.getElem_append, List.length_append, List.length_take, List.length_map,
      List.length_range, List.getElem_take, List.getElem_drop, List.getElem_map,
      List.getElem_range]
    rw [Nat.min_eq_left start]
    by_cases before : q < off
    · rw [if_neg (by omega), dif_pos (by omega), dif_pos before]
    · by_cases inData : q < off + m
      · rw [if_pos ⟨by omega, inData⟩, dif_pos inData, dif_neg before]
      · rw [if_neg (by omega), dif_neg inData, show off + m + (q - (off + m)) = q by omega]
  have larger : ((max (blocks (inodeOf blocks j) 0).toNat (off + m) : Nat) : Int) =
      max ((blocks (inodeOf blocks j) 0).toNat : Int) (off + m : Nat) := by omega
  unfold flatFileOf File.splice
  simp only [List.length_map, List.length_range, place, directory, size', size, bytes, larger]

end Changes

/-! ## Runs -/

/-- Names are not empty, fileids are those of files, and lengths are not negative, as
`vfs_read` and `vfs_write` assert; no file is removed. -/
def TfsOp.FlatLegal (blocks : Nat → Block) : TfsOp → Prop
  | .create filename _ => filename ≠ []
  | .openFile filename => filename ≠ []
  | .remove _ => False
  | .read fileid n _ => 0 ≤ n.val ∧ Handle blocks fileid
  | .write fileid _ n _ => 0 ≤ n.val ∧ Handle blocks fileid

/-- The blocks that the call takes are free. -/
def TfsOp.FlatRoom (s : Flat) : TfsOp → Prop
  | .create filename size => Admitted s.blocks filename size →
      blocksNeeded (numBlocks size) ≤ free (s.blocks 1) s.totalblocks
  | .write fileid _ n off => ∀ j, Used (s.blocks 2) j → fileid.val = inodeOf s.blocks j →
      WriteInside (s.blocks (inodeOf s.blocks j)) n off →
      writeNeed (s.blocks (inodeOf s.blocks j)) n off ≤ free (s.blocks 1) s.totalblocks
  | _ => True

/-- No allocation is refused in the call. -/
def TfsOp.Served (s : Flat) (op : TfsOp) : Prop :=
  op.flatRun.Keeps s fun _ t => t.refused = s.refused

/-- The size of a file that `flatfs_create` does not refuse. -/
theorem numBlocks_le {size : CInt} (low : 0 ≤ size.val)
    (high : size.val ≤ (FLATFS_MAX_BLOCKS * FLATFS_BLOCK_SIZE : Nat)) :
    numBlocks size ≤ FLATFS_MAX_BLOCKS := by
  change size.val ≤ 8457728 at high
  change toUint32 ((toInt32 (size.val + 512 - 1)).tdiv 512) ≤ 16519
  rw [toInt32_eq (by omega) (by omega), tdiv_block, if_pos (by omega)]
  unfold toUint32
  omega

section Steps

variable {s : Flat} {files : Files} (mounted : FlatMounted s) (holds : FlatHolds s.blocks files)

include mounted holds

/-- What `flatfs_create` refuses without an allocation. -/
theorem notAdmitted {filename : Name} {size : CInt} (nonempty : filename ≠ [])
    (refused : ¬ Admitted s.blocks filename size) :
    FlatStep files (.create filename size) (VFS_ERROR, []) files := by
  apply FlatStep.notCreated
  by_cases fits : 0 ≤ size.val ∧ size.val ≤ (FLATFS_MAX_BLOCKS * FLATFS_BLOCK_SIZE : Nat)
  · cases found : findEntry (s.blocks 2) filename with
    | some j =>
        obtain ⟨-, at_, name⟩ :=
          Filed.present holds (flatFileOf_name _) mounted.image.blanked nonempty found
        exact .inl ⟨_, _, at_, name⟩
    | none =>
        have used : ∀ j < 25, Used (s.blocks 2) j := fun j inside =>
          ⟨inside, fun unused => refused
            ⟨numBlocks_le fits.1 fits.2, found, findSlot_of_unused inside unused⟩⟩
        refine .inr (.inl ⟨(List.range 25).map (inodeOf s.blocks), ?_, by simp [FLATFS_MAX_FILES],
          fun i mem => ?_⟩)
        · refine List.Nodup.map_on (fun j mem k mem' same => ?_) List.nodup_range
          have used' := used k (List.mem_range.1 mem')
          by_contra ne
          refine mounted.image.held.apart j k ne
            (FlatImage.inode_mem (used j (List.mem_range.1 mem))) ?_
          rw [same]
          exact FlatImage.inode_mem used'
        · obtain ⟨j, inside, rfl⟩ := List.mem_map.1 mem
          rw [Filed.of_used holds (used j (List.mem_range.1 inside))]
          exact Option.some_ne_none _
  · exact .inr (.inr (by omega))

/-- **`flatfs_create`** of what fits is a step of the files, and otherwise an allocation is
refused. -/
theorem create_step {filename : Name} {size : CInt} (nonempty : filename ≠ []) :
    ((TfsOp.create filename size).FlatRoom s → ∃ result t,
      flatfsCreate filename size s = .returned (result, t) ∧ t.refused = s.refused ∧
        FlatMounted t ∧ ∃ files', FlatStep files (.create filename size) (result, []) files' ∧
          FlatHolds t.blocks files') ∧
    (¬ (TfsOp.create filename size).FlatRoom s →
      (flatfsCreate filename size).Keeps s fun _ t => s.refused < t.refused) := by
  have small := mounted.ready.small
  have image := mounted.image
  rcases flatfsCreate_stored mounted filename size with
    ⟨t, ran, same, kept, why⟩ | ⟨t, j, p, ran, same, created, can, -, none, zeros⟩
  · constructor
    · intro room
      rcases why with ⟨refused, none⟩ | ⟨admitted, short, -⟩
      · have unchanged : FlatChange s.totalblocks s.blocks t.blocks (.create filename size) :=
          .kept kept
        exact ⟨_, t, ran, none, mounted.same same (unchanged.image' small image), files,
          notAdmitted mounted holds nonempty refused, holds.keep image kept⟩
      · exact absurd (room admitted) (Nat.not_le.2 short)
    · intro short result u ran'
      cases ran.symm.trans ran'
      rcases why with ⟨refused, -⟩ | ⟨-, -, refused⟩
      · exact absurd (fun admitted => absurd admitted refused) short
      · exact refused
  · constructor
    · intro _
      obtain ⟨vacant, more⟩ := holds.create small image created zeros
      exact ⟨_, t, ran, none, mounted.same same (created.image' small image), _,
        .created (Filed.absent holds (flatFileOf_name _) created.absent) vacant, more⟩
    · exact fun short => absurd (fun _ => can.room) short

/-- **`flatfs_write`** of what fits is a step of the files, and otherwise an allocation is
refused. -/
theorem write_step {fileid : CInt} {buffer : Nat → Byte} {m off : CInt}
    (legal : (TfsOp.write fileid buffer m off).FlatLegal s.blocks) :
    ((TfsOp.write fileid buffer m off).FlatRoom s → ∃ result t,
      flatfsWrite fileid buffer m off s = .returned (result, t) ∧ t.refused = s.refused ∧
        FlatMounted t ∧ ∃ files', FlatStep files (.write fileid buffer m off) (result, []) files' ∧
          FlatHolds t.blocks files') ∧
    (¬ (TfsOp.write fileid buffer m off).FlatRoom s →
      (flatfsWrite fileid buffer m off).Keeps s fun _ t => s.refused < t.refused) := by
  obtain ⟨nonneg, j, used, isFile⟩ := legal
  have image := mounted.image
  have file := Filed.of_used holds used
  constructor
  · intro room
    by_cases outside : m.val = 0 ∨ off.val < 0 ∨ fileSize (s.blocks (inodeOf s.blocks j)) < off.val
    · obtain ⟨t, ran, unchanged, none⟩ :=
        flatfsWrite_outside mounted used isFile buffer nonneg outside
      rw [← flatFileOf_size] at outside
      refine ⟨_, t, ran, none, mounted.same unchanged.same ?_, files,
        .notWritten isFile file outside, ?_⟩
      · rw [unchanged.disk]
        exact image
      · rw [unchanged.disk]
        exact holds
    · have inside : WriteInside (s.blocks (inodeOf s.blocks j)) m off :=
        ⟨by omega, by omega, by omega, (image.file j used).bound⟩
      have enough := room j used isFile inside
      have small := inside.size_small
        (Nat.le_trans enough (Nat.le_trans (Lib.free_le _ _) mounted.ready.small))
      obtain ⟨t, ran, same, none, written, size, bytes⟩ :=
        flatfsWrite_stored mounted used isFile inside buffer enough
      obtain ⟨o, begins⟩ := Int.eq_ofNat_of_zero_le inside.low
      obtain ⟨k, count⟩ := Int.eq_ofNat_of_zero_le nonneg
      have whole := inside.size.1
      have within : o ≤ (flatFileOf s.blocks j).bytes.length := by
        have high := inside.high
        rw [begins] at high
        rw [(flatFileOf s.blocks j).full, flatFileOf_size]
        exact Int.ofNat_le.1 (high.trans (Int.self_le_toNat _))
      have sum : (off.val + m.val).toNat = o + k := by omega
      rw [sum] at small size bytes
      rw [begins, Int.toNat_natCast] at bytes
      have place : inodeOf t.blocks j = inodeOf s.blocks j := by
        unfold inodeOf
        rw [written.directory]
      have more := holds.put (written.image' image) (written.others image)
        (by rw [written.directory]; exact used) (fun _ => place.symm)
        (fun _ _ _ => by rw [written.directory])
      rw [flatFileOf_written within whole written.directory small size bytes, place] at more
      have high := inside.high
      rw [← flatFileOf_size] at high
      have step := @FlatStep.written _ _ buffer m off _ _ _ within isFile file inside.some begins
        high
      rw [show m.val.toNat = k by omega] at step
      exact ⟨_, t, ran, none, mounted.same same (written.image' image), _, step, more⟩
  · intro short
    unfold TfsOp.FlatRoom at short
    push Not at short
    obtain ⟨j', used', isFile', inside, full⟩ := short
    exact flatfsWrite_short mounted used' isFile' buffer inside full

/-- **One call** is a step of the files if it finds the blocks it takes, and otherwise an
allocation is refused. -/
theorem flat_step {op : TfsOp} (legal : op.FlatLegal s.blocks) :
    (op.FlatRoom s → ∃ reply t, op.flatRun s = .returned (reply, t) ∧ t.refused = s.refused ∧
      FlatMounted t ∧ ∃ files', FlatStep files op reply files' ∧ FlatHolds t.blocks files') ∧
    (¬ op.FlatRoom s → op.flatRun.Keeps s fun _ t => s.refused < t.refused) := by
  have image := mounted.image
  have still : ∀ t, Volume.Unchanged s t → FlatMounted t ∧ FlatHolds t.blocks files := by
    intro t unchanged
    constructor
    · exact mounted.same unchanged.same (by rw [unchanged.disk]; exact image)
    · rw [unchanged.disk]
      exact holds
  cases op with
  | create filename size =>
      obtain ⟨fits, short⟩ := @create_step s files mounted holds filename size legal
      refine ⟨fun room => ?_, fun full => ?_⟩
      · obtain ⟨result, t, ran, rest⟩ := fits room
        exact ⟨_, t, Prog.bind_of_returned ran, rest⟩
      · exact (short full).bind fun _ _ refused => .pure refused
  | openFile filename =>
      refine ⟨fun _ => ?_, fun full => absurd trivial full⟩
      obtain ⟨t, unchanged, opened⟩ :=
        flatfsOpen_ran mounted.ready mounted.free mounted.room filename
      obtain ⟨mounted', holds'⟩ := still t unchanged
      rcases opened with ⟨missing, ran⟩ | ⟨j, found, ran⟩
      · refine ⟨_, t, Prog.bind_of_returned ran, Volume.flatfsOpen_refused filename s _ t ran,
          mounted', files, .notFound (Filed.absent holds (flatFileOf_name _) missing), holds'⟩
      · obtain ⟨used, at_, name⟩ :=
          Filed.present holds (flatFileOf_name _) image.blanked legal found
        have number : toInt32 (entryInode (s.blocks 2) j).toNat = (inodeOf s.blocks j : Int) := by
          have := image.inode_inside used
          have := mounted.ready.small
          exact toInt32_eq (by omega) (by unfold inodeOf at *; omega)
        have none := Volume.flatfsOpen_refused filename s _ t ran
        rw [number] at ran
        exact ⟨_, t, Prog.bind_of_returned ran, none, mounted', files, .opened at_ name, holds'⟩
  | remove filename => exact legal.elim
  | read fileid m off =>
      refine ⟨fun _ => ?_, fun full => absurd trivial full⟩
      obtain ⟨nonneg, j, used, isFile⟩ := legal
      obtain ⟨t, ran⟩ := flatfsRead_cases mounted used isFile m off nonneg
      obtain ⟨mounted', holds'⟩ := still t (Volume.flatfsRead_unchanged ran)
      have step := @FlatStep.read _ _ m off _ _ isFile (Filed.of_used holds used)
      rw [flatFileOf_size, flatFileOf_bytes] at step
      exact ⟨_, t, ran, Volume.flatfsRead_refused fileid m off s _ t ran, mounted', files, step,
        holds'⟩
  | write fileid buffer m off =>
      obtain ⟨fits, short⟩ := write_step mounted holds legal
      refine ⟨fun room => ?_, fun full => ?_⟩
      · obtain ⟨result, t, ran, rest⟩ := fits room
        exact ⟨_, t, Prog.bind_of_returned ran, rest⟩
      · exact (short full).bind fun _ _ refused => .pure refused

end Steps

theorem FlatNew.holds {s : Flat} (new : FlatNew s) : FlatHolds s.blocks fun _ => none := by
  intro i file
  constructor
  · intro at_
    cases at_
  · rintro ⟨j, used, -⟩
    exact absurd used (new.unused j)

/-- **FlatFS refines byte arrays.**  In every run from an empty volume in which no allocation is
refused, the image stands for a set of files, and every legal call that finds the blocks it takes
returns, replies and changes the files as `FlatStep` says; any other is refused a block. -/
theorem flat_refines {s : Flat} (run : (flatSystem FlatNew).ReachableWhen
      (fun s op => op.FlatLegal s.blocks ∧ op.Served s) s) :
    ∃ files, FlatHolds s.blocks files ∧ ∀ op : TfsOp, op.FlatLegal s.blocks →
      (op.FlatRoom s → op.flatRun.Ends s fun reply t => t.refused = s.refused ∧
        ∃ files', FlatStep files op reply files' ∧ FlatHolds t.blocks files') ∧
      (¬ op.FlatRoom s → op.flatRun.Keeps s fun _ t => s.refused < t.refused) := by
  have inv : FlatMounted s ∧ ∃ files, FlatHolds s.blocks files := by
    refine run.invariant (I := fun s => FlatMounted s ∧ ∃ files, FlatHolds s.blocks files)
      (fun s (new : FlatNew s) => ⟨new.mounted, _, new.holds⟩) ?_
    rintro s op t ⟨mounted, files, holds⟩ ⟨legal, served⟩ taken
    obtain ⟨reply, ran⟩ := flatSystem_step.1 taken
    obtain ⟨fits, short⟩ := flat_step mounted holds legal
    have room : op.FlatRoom s := by
      by_contra full
      exact absurd (served reply t ran) (Nat.ne_of_gt (short full reply t ran))
    obtain ⟨reply', t', ran', -, mounted', files', -, holds'⟩ := fits room
    cases ran.symm.trans ran'
    exact ⟨mounted', files', holds'⟩
  obtain ⟨mounted, files, holds⟩ := inv
  refine ⟨files, holds, fun op legal => ?_⟩
  obtain ⟨fits, short⟩ := flat_step mounted holds legal
  refine ⟨fun room => ?_, short⟩
  obtain ⟨reply, t, ran, none, -, files', step, holds'⟩ := fits room
  exact ⟨reply, t, ran, none, files', step, holds'⟩

/-- A run that makes a file of one byte. -/
theorem flat_refines_oneByte :
    ∃ t, (flatSystem FlatNew).step tenBlocks (.create newName oneByte) = some t ∧
      ∃ files, FlatHolds t.blocks files ∧ ∀ op : TfsOp, op.FlatLegal t.blocks →
        (op.FlatRoom t → op.flatRun.Ends t fun reply u => u.refused = t.refused ∧
          ∃ files', FlatStep files op reply files' ∧ FlatHolds u.blocks files') ∧
        (¬ op.FlatRoom t → op.flatRun.Keeps t fun _ u => t.refused < u.refused) := by
  have legal : (TfsOp.create newName oneByte).FlatLegal tenBlocks.blocks :=
    show newName ≠ [] by decide
  have room : (TfsOp.create newName oneByte).FlatRoom tenBlocks := fun _ => by decide +kernel
  obtain ⟨fits, -⟩ := flat_step flatMounted_tenBlocks flatNew_tenBlocks.holds legal
  obtain ⟨reply, t, ran, none, -⟩ := fits room
  have taken : (flatSystem FlatNew).step tenBlocks (.create newName oneByte) = some t :=
    flatSystem_step.2 ⟨reply, ran⟩
  refine ⟨t, taken, flat_refines (.step (.start flatNew_tenBlocks) ⟨legal, ?_⟩ taken)⟩
  intro reply' u ran'
  cases ran.symm.trans ran'
  exact none

end Buenos.Fs
