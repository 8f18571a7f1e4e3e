/-
# Fs.TfsRuns -- the accounts of a TFS volume

The allocation half of what a TFS volume promises over whole runs: the bitmap marks the
system blocks and, for every file, its inode and as many data blocks as its size needs; no
block has two uses; names are unique; and a table of blocks ends in zeros.  `Accounted`
says so of an image, for a given reading of the `filesize` word.

Nothing checks that a fileid is one: the inode is whatever the block holds.  A read changes
nothing whatever it is given, but a write through a block of file data puts the caller's
bytes wherever that data says (`tfs_overwrites_bitmap`).  `tfs_accounted` is the result for
the runs whose writes are given the fileid of a file, or one that the driver refuses.
-/
import Buenos.Fs.DriverLocks
import Buenos.Util.TfstoolImage

namespace Buenos.Fs

open Buenos.Lib Buenos.Theory

set_option autoImplicit false

/-! ## Exact accounts -/

/-- A file's inode block and the data blocks that `size` bytes need. -/
def ownedBlocks (sizeOf : Block → Nat) (blocks : Nat → Block) (j : Nat) : List Nat :=
  inodeOf blocks j :: (List.range (blocksOf (sizeOf (blocks (inodeOf blocks j))))).map fun k =>
    (blocks (inodeOf blocks j) (directWord k)).toNat

structure Accounted (sizeOf : Block → Nat) (n : Nat) (blocks : Nat → Block) : Prop where
  marked : ∀ b < 4096, bitmapGet (blocks 1) b = true ↔
    b < 3 ∨ ∃ j, Used (blocks 2) j ∧ b ∈ ownedBlocks sizeOf blocks j
  nodup : ∀ j, Used (blocks 2) j → (ownedBlocks sizeOf blocks j).Nodup
  apart : ∀ j k, Used (blocks 2) j → Used (blocks 2) k → j ≠ k →
    List.Disjoint (ownedBlocks sizeOf blocks j) (ownedBlocks sizeOf blocks k)
  inside : ∀ j, Used (blocks 2) j → ∀ b ∈ ownedBlocks sizeOf blocks j, 3 ≤ b ∧ b < n
  names : ∀ j k, Used (blocks 2) j → Used (blocks 2) k →
    entryName (blocks 2) j = entryName (blocks 2) k → j = k
  listed : ∀ j, Used (blocks 2) j → ∀ k < 127,
    blocks (inodeOf blocks j) (directWord k) = 0 ↔
      blocksOf (sizeOf (blocks (inodeOf blocks j))) ≤ k
  fits : ∀ j, Used (blocks 2) j → blocksOf (sizeOf (blocks (inodeOf blocks j))) ≤ 127

/-- `filesize`, as the `int` that the driver compares it as. -/
def signedSize (ino : Block) : Nat := (fileSize ino).toNat

/-- `filesize`, as it is declared. -/
def unsignedSize (ino : Block) : Nat := (ino 0).toNat

/-- What the runs keep: a consistent image whose tables end with the data of their files and
whose names are unique. -/
structure Settled (n : Nat) (blocks : Nat → Block) : Prop where
  image : Image n blocks
  ended : ∀ j, Used (blocks 2) j → ∀ k < 127,
    blocksOf (signedSize (blocks (inodeOf blocks j))) ≤ k →
      blocks (inodeOf blocks j) (directWord k) = 0
  names : Unique (blocks 2)

namespace Settled

variable {n : Nat} {blocks blocks' : Nat → Block} {j k : Nat} (settled : Settled n blocks)

include settled

theorem table_length (used : Used (blocks 2) j) :
    (tableBlocks (blocks (inodeOf blocks j))).length =
      blocksOf (signedSize (blocks (inodeOf blocks j))) := by
  have covered := settled.image.covered j used
  rw [← signedSize] at covered
  apply Nat.le_antisymm ?_ covered
  by_contra longer
  have listed := Nat.lt_of_not_le longer
  have most := tableBlocks_length_le (blocks (inodeOf blocks j))
  exact tableBlocks_ne_zero listed (settled.ended j used _ (by omega) (Nat.le_refl _))

/-- The blocks of the table are those that the size needs. -/
theorem slotBlocks_eq (used : Used (blocks 2) j) :
    slotBlocks blocks j = ownedBlocks signedSize blocks j := by
  have length := settled.table_length used
  rw [Image.slotBlocks_used used, ownedBlocks]
  congr 1
  apply List.ext_getElem
  · rw [length, List.length_map, List.length_range]
  · intro k less _
    rw [tableBlocks_getElem less, List.getElem_map, List.getElem_range]

theorem accounted : Accounted signedSize n blocks where
  marked := by
    intro b small
    have exact := settled.image.exact.marked b
    rw [Marked, and_iff_right small] at exact
    rw [exact]
    apply or_congr_right
    constructor
    · rintro ⟨j, mem⟩
      by_cases used : Used (blocks 2) j
      · exact ⟨j, used, settled.slotBlocks_eq used ▸ mem⟩
      · rw [slotBlocks, if_neg used] at mem
        cases mem
    · rintro ⟨j, used, mem⟩
      exact ⟨j, (settled.slotBlocks_eq used).symm ▸ mem⟩
  nodup := fun j used => settled.slotBlocks_eq used ▸ settled.image.exact.nodup j
  apart := by
    intro j k first second ne
    rw [← settled.slotBlocks_eq first, ← settled.slotBlocks_eq second]
    exact settled.image.exact.apart j k ne
  inside := by
    intro j used b mem
    rw [← settled.slotBlocks_eq used] at mem
    exact settled.image.owned mem
  names := settled.names
  listed := by
    intro j used k within
    refine ⟨fun zero => ?_, settled.ended j used k within⟩
    by_contra less
    have listed : k < (tableBlocks (blocks (inodeOf blocks j))).length := by
      rw [settled.table_length used]
      omega
    exact tableBlocks_ne_zero listed zero
  fits := fun j used => settled.table_length used ▸ tableBlocks_length_le _

end Settled

/-! ## What a call does to the image -/

inductive Change (n : Nat) (blocks blocks' : Nat → Block) : Prop
  | same : blocks' = blocks → Change n blocks blocks'
  | created {filename : Name} {size : CInt} {j p : Nat} {data : List Nat} :
      filename.length ≤ 15 → Created n blocks blocks' filename size j p data →
      Change n blocks blocks'
  | removed {j : Nat} : Cleared blocks blocks' j → Change n blocks blocks'
  | written {j off m : Nat} {buffer : Nat → Byte} : WrittenTo blocks blocks' j off m buffer →
      Change n blocks blocks'

namespace Change

variable {n : Nat} {blocks blocks' : Nat → Block}

theorem image (small : n ≤ 4096) (image : Image n blocks) (change : Change n blocks blocks') :
    Image n blocks' := by
  cases change with
  | same kept => rw [kept]; exact image
  | created _ created => exact created.stored.image' image small
  | removed cleared => exact cleared.image' image
  | written written => exact written.image' image

/-- Names of at most 15 characters are stored whole, so they stay unique. -/
theorem unique (image : Image n blocks) (unique : Unique (blocks 2))
    (change : Change n blocks blocks') : Unique (blocks' 2) := by
  cases change with
  | same kept => rw [kept]; exact unique
  | @created filename _ _ _ _ short created =>
      have whole : stringcopy filename TFS_FILENAME_MAX = filename := List.take_of_length_le short
      refine created.stored.directory.unique_store ?_ unique
      rw [whole]
      exact findEntry_none.1 created.absent
  | removed cleared => exact cleared.directory.unique_clear unique
  | written written =>
      rw [(written.kept_system image).2]
      exact unique

/-- **A property of inodes** that holds of new files holds of all files, if it held before. -/
theorem inodes (small : n ≤ 4096) (image : Image n blocks) {P : Block → Prop}
    (new : ∀ {filename : Name} {size : CInt} {j p : Nat} {data : List Nat},
      Created n blocks blocks' filename size j p data → P (blocks' p))
    (old : ∀ j, Used (blocks 2) j → P (blocks (inodeOf blocks j)))
    (change : Change n blocks blocks') :
    ∀ j, Used (blocks' 2) j → P (blocks' (inodeOf blocks' j)) := by
  cases change with
  | same kept => rw [kept]; exact old
  | @created _ _ j _ _ _ created =>
      intro k used
      by_cases same : k = j
      · rw [same, created.stored.inode_self small]
        exact new created
      · have used := (created.stored.directory.used_ne same).1 used
        rw [created.stored.directory.inode_ne same used,
          created.stored.kept_owned image (Image.inode_mem used)]
        exact old k used
  | @removed j cleared =>
      intro k used
      have ne : k ≠ j := fun same => cleared.not_used (same ▸ used)
      have used := (cleared.directory.used_ne ne).1 used
      rw [cleared.directory.inode_ne ne used, cleared.kept_owned image (Image.inode_mem used)]
      exact old k used
  | written written =>
      intro k used
      have directory := (written.kept_system image).2
      rw [directory] at used
      rw [WrittenTo.place_eq directory, written.kept_inode image used]
      exact old k used

/-- A call keeps what the runs keep. -/
theorem settled (small : n ≤ 4096) (settled : Settled n blocks)
    (change : Change n blocks blocks') : Settled n blocks' where
  image := change.image small settled.image
  ended := by
    refine change.inodes small settled.image (P := fun ino => ∀ k < 127,
      blocksOf (signedSize ino) ≤ k → ino (directWord k) = 0) ?_ settled.ended
    intro filename size j p data created k inside enough
    rw [signedSize, created.size, ← created.count] at enough
    exact created.ended k enough inside
  names := change.unique settled.image settled.names

end Change

/-! ## Calls that change nothing -/

namespace Volume

variable {s t : Tfs}

/-- All of a volume but its lock and its buffers. -/
def still (s : Tfs) : (Nat → Block) × Nat × Nat × (Nat → Bool) :=
  (s.blocks, s.totalblocks, s.disk.totalBlocks, s.disk.answers)

theorem readBlock_fixes (block : Word) (b : TfsBuffer) : Prog.Fixes still (readBlock block b) := by
  intro s a t ran
  simp only [readBlock, diskSubmitRequest] at ran
  by_cases answered : s.disk.answers s.disk.asked = true
  · by_cases inside : block.toNat < s.disk.totalBlocks
    · simp only [answered, inside, if_true] at ran
      cases ran
      rfl
    · simp [answered, inside] at ran
  · simp only [answered] at ran
    cases ran
    rfl

theorem lockP_fixes : Prog.Fixes still (lockP : Prog Tfs Unit) := by
  intro s a t ran
  simp only [lockP] at ran
  split at ran
  · cases ran
    rfl
  · cases ran

theorem unlock_fixes {α : Type} (result : α) : Prog.Fixes still (unlock result : Prog Tfs α) :=
  .bind (.modify fun _ => rfl) fun _ => .pure _

theorem tfsLoad_fixes (b : Nat) : Prog.Fixes still (tfsLoad b) :=
  .bind (.gets _) fun _ => readBlock_fixes _ _

theorem tfsReadLoop_fixes (b2 bufsize : Int) (n : Nat) :
    ∀ (b1 : Nat) (read : Int) (out : List Byte),
      Prog.Fixes still (tfsReadLoop b2 bufsize n b1 read out) := by
  induction n with
  | zero => exact fun _ _ _ => .pure _
  | succ n ih =>
      intro b1 read out
      refine .bind (tfsLoad_fixes b1) fun loaded => .ite ?_ (.pure _)
      exact .bind (.gets _) fun bat => .ite (ih _ _ _) (ih _ _ _)

theorem tfsReadBlocks_fixes (bufsize offset : Int) :
    Prog.Fixes still (tfsReadBlocks bufsize offset) := by
  refine .bind (tfsLoad_fixes _) fun loaded => .ite ?_ (unlock_fixes _)
  refine .bind (.gets _) fun bat => .bind (tfsReadLoop_fixes _ _ _ _ _ _) fun result => ?_
  cases result with
  | none => exact unlock_fixes _
  | some r => exact unlock_fixes _

theorem tfsRead_fixes (fileid n off : CInt) : Prog.Fixes still (tfsRead fileid n off) := by
  refine .bind lockP_fixes fun _ => .bind (.gets _) fun totalblocks => .ite (unlock_fixes _) ?_
  refine .bind (readBlock_fixes _ _) fun loaded => .ite ?_ (unlock_fixes _)
  refine .bind (.gets _) fun filesize => .ite (unlock_fixes _) ?_
  exact .ite (unlock_fixes _) (tfsReadBlocks_fixes _ _)

theorem Unchanged.of_still (same : t.still = s.still) (lock : t.lock = s.lock) :
    Unchanged s t := by
  simp only [still, Prod.mk.injEq] at same
  obtain ⟨disk, totalblocks, totalBlocks, answers⟩ := same
  exact ⟨⟨totalblocks, totalBlocks, answers, lock⟩, disk⟩

/-- **A read changes nothing**, whatever it is given. -/
theorem tfsRead_unchanged {fileid n off : CInt} {result : Int × List Byte}
    (ran : tfsRead fileid n off s = .returned (result, t)) : Unchanged s t :=
  .of_still (tfsRead_fixes fileid n off s result t ran)
    ((tfsRead_balanced fileid n off).same s result t ran)

/-- A fileid outside the volume is refused. -/
theorem tfsWrite_refused (free : 0 < s.lock) {fileid : CInt} {buffer : Nat → Byte} {n off : CInt}
    (outside : fileid.val < 2 ∨ (s.totalblocks : Int) < fileid.val) :
    ∃ t, tfsWrite fileid buffer n off s = .returned (VFS_ERROR, t) ∧ Unchanged s t := by
  refine ⟨_, ?_, Unchanged.unlock ⟨.refl _, rfl⟩⟩
  rw [tfsWrite, Prog.bind_of_returned (lockP_free free), Prog.bind_gets_apply, locked_totalblocks,
    if_pos outside]
  rfl

section Served

variable (ready : s.Ready)

include ready

/-- A negative length: a block is written back as it was read. -/
theorem tfsWriteBlocks_negative {buffer : Nat → Byte} {datasize offset result : Int}
    (negative : datasize < 0) (inside : 0 ≤ offset ∧ offset < 0x80000000)
    (low : -0x80000000 ≤ offset + datasize - 1)
    (ran : tfsWriteBlocks buffer datasize offset s = .returned (result, t)) :
    ∃ u, Unchanged s u ∧ t = { u with lock := u.lock + 1 } := by
  have rounds : ((toInt32 (offset + datasize - 1)).tdiv (TFS_BLOCK_SIZE : Int) -
      (offset.tdiv (TFS_BLOCK_SIZE : Int)).toNat).toNat = 0 := by
    change ((toInt32 (offset + datasize - 1)).tdiv 512 - (offset.tdiv 512).toNat).toNat = 0
    rw [toInt32_eq low (by omega), tdiv_block, tdiv_block, if_pos inside.1]
    split <;> omega
  have first : min ((TFS_BLOCK_SIZE : Int) - (offset % (TFS_BLOCK_SIZE : Int)).toNat) datasize =
      datasize := by
    change min ((512 : Int) - (offset % 512).toNat) datasize = datasize
    omega
  have part : datasize < (TFS_BLOCK_SIZE : Int) := by
    change datasize < 512
    omega
  simp only [tfsWriteBlocks, rounds, first] at ran
  rw [if_pos part] at ran
  obtain ⟨loaded, u, ran₁, ran⟩ := Prog.bind_returned.1 ran
  rw [tfsLoad, Prog.bind_gets_apply] at ran₁
  obtain ⟨rfl, rfl⟩ := readBlock_ran ready ran₁
  simp only [if_true, Int.toNat_of_nonpos (Int.le_of_lt negative), memcopy_zero,
    Prog.bind_modify_apply] at ran
  obtain ⟨stored, v, ran₂, ran⟩ := Prog.bind_returned.1 ran
  rw [tfsSave, Prog.bind_gets_apply] at ran₂
  obtain ⟨rfl, rfl⟩ := writeBuffer_ran (ready.same (.trans (.didRead _ _) (.setBuffer _ _))) ran₂
  simp only [if_true, tfsWriteLoop, Prog.bind_pure_apply, unlock_apply] at ran
  cases ran
  exact ⟨_, ⟨.trans (.didRead _ _) (.trans (.setBuffer _ _) (.didWrite _ _)), by simp⟩, rfl⟩

end Served

end Volume

/-- **A write of a negative length changes nothing**, unless `offset + datasize - 1` is less
than the least `int`. -/
theorem tfsWrite_negative {s t : Tfs} (ready : s.Ready) (free : 0 < s.lock) {i : Nat}
    (file : FileAt s.totalblocks s.blocks i) {fileid : CInt} (handle : fileid.val = i)
    {buffer : Nat → Byte} {n off : CInt} (negative : n.val < 0)
    (low : -0x80000000 ≤ off.val + n.val - 1) {result : Int}
    (ran : tfsWrite fileid buffer n off s = .returned (result, t)) : Volume.Unchanged s t := by
  obtain ⟨legal, loaded⟩ := load_file ready file handle
  have same : Volume.Same s.locked (s.locked.didRead i TfsBuffer.inode) := .didRead _ _
  have size_le := file.size_le
  have filesize : toInt32 ((s.locked.didRead i TfsBuffer.inode).buffer .inode 0).toNat =
      fileSize (s.blocks i) := by
    simp [fileSize]
  rw [tfsWrite, Prog.bind_of_returned (Volume.lockP_free free), Prog.bind_gets_apply,
    if_neg legal, Prog.bind_of_returned loaded] at ran
  simp only [if_true, Prog.bind_gets_apply, filesize] at ran
  by_cases outside : off.val < 0 ∨ fileSize (s.blocks i) < off.val
  · rw [if_pos outside, Volume.unlock_apply] at ran
    cases ran
    exact Volume.Unchanged.unlock ⟨same, rfl⟩
  · have moved : min n.val (fileSize (s.blocks i) - off.val) = n.val := by omega
    rw [if_neg outside, moved, if_neg (by omega)] at ran
    obtain ⟨u, kept, rfl⟩ := Volume.tfsWriteBlocks_negative (ready.locked.same same) negative
      (by omega) low ran
    exact Volume.Unchanged.unlock ⟨same.trans kept.same, kept.disk⟩

/-! ## Runs -/

theorem Empty.settled {s : Tfs} (empty : Empty s) : Settled s.totalblocks s.blocks where
  image := empty.mounted.image
  ended := fun j used => absurd used (empty.not_used j)
  names := fun j _ used => absurd used (empty.not_used j)

/-- Names have 1 to 15 characters. -/
def TfsOp.Named : TfsOp → Prop
  | .create filename _ => filename ≠ [] ∧ filename.length ≤ 15
  | .openFile filename => filename ≠ [] ∧ filename.length ≤ 15
  | .remove filename => filename ≠ [] ∧ filename.length ≤ 15
  | .read .. => True
  | .write .. => True

/-- A fileid that `tfs_write` refuses. -/
def Refused (s : Tfs) (fileid : CInt) : Prop :=
  fileid.val < 2 ∨ (s.totalblocks : Int) < fileid.val

/-- A write is given the fileid of a file, or one that is refused; a negative length does
not make `offset + datasize - 1` less than the least `int`. -/
def TfsOp.Permitted (s : Tfs) : TfsOp → Prop
  | .write fileid _ n off =>
      Refused s fileid ∨ Handle s.blocks fileid ∧ -0x80000000 ≤ off.val + n.val - 1
  | _ => True

/-- The volumes that `tfstool_createvol` makes. -/
def NewVolume (s : Tfs) : Prop := ∃ order volumename, Util.CreatedBy order volumename s

theorem Volume.Unchanged.change {s t : Tfs} (kept : Volume.Unchanged s t) :
    Volume.Same s t ∧ Change s.totalblocks s.blocks t.blocks :=
  ⟨kept.same, .same kept.disk⟩

/-- **One call**: what it does to the image, if it returns. -/
theorem tfs_change {s t : Tfs} {op : TfsOp} {reply : TfsReply} (mounted : TfsMounted s)
    (named : op.Named) (permitted : op.Permitted s) (taken : op.run s = .returned (reply, t)) :
    Volume.Same s t ∧ Change s.totalblocks s.blocks t.blocks := by
  obtain ⟨ready, free, room, image⟩ := mounted
  cases op with
  | create filename size =>
      rcases tfsCreate_cases ready free room image filename size with
        ⟨u, ran, kept⟩ | ⟨u, j, p, data, ran, same, created⟩
      · cases (run_int ran).symm.trans taken
        exact kept.change
      · cases (run_int ran).symm.trans taken
        exact ⟨same, .created named.2 created⟩
  | openFile filename =>
      obtain ⟨u, kept, ⟨-, ran⟩ | ⟨j, -, ran⟩⟩ := tfsOpen_cases ready free room image named.1
      · cases (run_int ran).symm.trans taken
        exact kept.change
      · cases (run_int ran).symm.trans taken
        exact kept.change
  | remove filename =>
      rcases tfsRemove_cases ready free room image named.1 with
        ⟨-, u, ran, kept⟩ | ⟨u, j, -, ran, same, cleared⟩
      · cases (run_int ran).symm.trans taken
        exact kept.change
      · cases (run_int ran).symm.trans taken
        exact ⟨same, .removed cleared⟩
  | read fileid n off => exact (Volume.tfsRead_unchanged taken).change
  | write fileid buffer n off =>
      rcases permitted with refused | ⟨⟨j, used, handle⟩, low⟩
      · obtain ⟨u, ran, kept⟩ := Volume.tfsWrite_refused free refused
        cases (run_int ran).symm.trans taken
        exact kept.change
      · by_cases nonneg : 0 ≤ n.val
        · obtain ⟨u, ran, same, overlaid⟩ :=
            tfsWrite_cases ready free (image.fileAt used) handle buffer n off nonneg
          cases (run_int ran).symm.trans taken
          exact ⟨same, .written (.mk used overlaid)⟩
        · obtain ⟨result, u, ran, last⟩ := Prog.bind_returned.1 taken
          cases last
          exact (tfsWrite_negative ready free (image.fileAt used) handle
            (Int.lt_of_not_ge nonneg) low ran).change

/-- **Runs.**  What every change of the image keeps, every run keeps. -/
theorem tfs_runs {initial : Tfs → Prop} {I : Nat → (Nat → Block) → Prop}
    (start : ∀ s, initial s → TfsMounted s ∧ I s.totalblocks s.blocks)
    (keep : ∀ {n blocks blocks'}, n ≤ 4096 → Image n blocks → I n blocks →
      Change n blocks blocks' → I n blocks') {s : Tfs}
    (run : (tfsSystem initial).ReachableWhen (fun s op => op.Named ∧ op.Permitted s) s) :
    TfsMounted s ∧ I s.totalblocks s.blocks := by
  refine run.invariant (I := fun s => TfsMounted s ∧ I s.totalblocks s.blocks) start ?_
  rintro s op t ⟨mounted, holds⟩ ⟨named, permitted⟩ taken
  obtain ⟨reply, ran⟩ := tfsSystem_step.1 taken
  obtain ⟨same, change⟩ := tfs_change mounted named permitted ran
  have small := mounted.ready.small
  refine ⟨mounted.same same (change.image small mounted.image), ?_⟩
  rw [same.totalblocks]
  exact keep small mounted.image holds change

/-- **The accounts of TFS are exact.**  After every call of a run on a volume that
`tfstool_createvol` has made, whose writes are given fileids of files, the bitmap marks the
system blocks and what the files own, and nothing else; and legal calls return. -/
theorem tfs_accounted {s : Tfs}
    (run : (tfsSystem NewVolume).ReachableWhen (fun s op => op.Named ∧ op.Permitted s) s) :
    Accounted signedSize s.totalblocks s.blocks ∧
      ∀ op : TfsOp, op.Legal s.blocks → ∃ reply t, op.run s = .returned (reply, t) := by
  obtain ⟨mounted, settled⟩ := tfs_runs (I := Settled)
    (fun s ⟨order, volumename, created⟩ => ⟨created.empty.mounted, created.empty.settled⟩)
    (fun small _ settled change => change.settled small settled) run
  refine ⟨settled.accounted, fun op legal => ?_⟩
  obtain ⟨files, holds⟩ := mounted.image.holds
  obtain ⟨reply, t, -, ran, -⟩ := tfs_step mounted holds legal
  exact ⟨reply, t, ran⟩

/-! ## A volume of five blocks -/

def five : CInt := ⟨5, by decide⟩

def fiveBlocks : Tfs := Util.newVolume .big (fun _ => 0) five

theorem newVolume_fiveBlocks : NewVolume fiveBlocks :=
  ⟨.big, fun _ => 0, Util.newVolume_created .big _ (by decide) (by decide)⟩

theorem tfs_accounted_create :
    ∃ s, (tfsSystem NewVolume).exec fiveBlocks [.create letter ⟨512, by decide⟩] = some s ∧
      Accounted signedSize s.totalblocks s.blocks ∧
      ∀ op : TfsOp, op.Legal s.blocks → ∃ reply t, op.run s = .returned (reply, t) := by
  have ran : ((tfsSystem NewVolume).exec fiveBlocks [.create letter ⟨512, by decide⟩]).isSome := by
    decide +kernel
  obtain ⟨s, ran⟩ := Option.isSome_iff_exists.1 ran
  refine ⟨s, ran, tfs_accounted (.exec (.start newVolume_fiveBlocks) ?_ ran)⟩
  apply System.guarded_of_forall
  intro op mem s
  obtain rfl := List.mem_singleton.1 mem
  exact ⟨⟨by decide, by decide⟩, trivial⟩

/-- An inode of 512 bytes in the bitmap's block. -/
def forgedInode : Nat → Byte := fun k => if k = 2 then 2#8 else if k = 7 then 1#8 else 0#8

/-- A file is made in blocks 3 and 4, an inode is written into it, and block 4 is then
written to as if it were a file. -/
def forgery : List TfsOp :=
  [.create letter ⟨512, by decide⟩,
    .write ⟨3, by decide⟩ forgedInode ⟨512, by decide⟩ ⟨0, by decide⟩,
    .write ⟨4, by decide⟩ (fun _ => 0) ⟨512, by decide⟩ ⟨0, by decide⟩]

/-- **Fileids are not checked**, and a negative size is not the number that the inode
declares: the accounts are wrong after a write through a block of file data, and, with
`filesize` read as it is declared, after a file of size -1 was made. -/
theorem tfs_overwrites_bitmap :
    (∃ s, (tfsSystem NewVolume).ReachableWhen (fun _ op => op.Named) s ∧
      ¬ Accounted signedSize s.totalblocks s.blocks) ∧
    ∃ s, (tfsSystem NewVolume).ReachableWhen (fun _ op => op.Named) s ∧
      ¬ Accounted unsignedSize s.totalblocks s.blocks := by
  have reached : ∀ ops : List TfsOp, (∀ op ∈ ops, op.Named) → ∀ s,
      (tfsSystem NewVolume).exec fiveBlocks ops = some s →
        (tfsSystem NewVolume).ReachableWhen (fun _ op => op.Named) s := by
    intro ops named s ran
    exact .exec (.start newVolume_fiveBlocks)
      (System.guarded_of_forall (fun op mem _ => named op mem) _) ran
  constructor
  · have ran : ((tfsSystem NewVolume).exec fiveBlocks forgery).map
        (fun s => bitmapGet (s.blocks 1) 0) = some false := by decide +kernel
    obtain ⟨s, ran, bit⟩ := Option.map_eq_some_iff.1 ran
    refine ⟨s, reached forgery ?_ s ran, fun accounted => ?_⟩
    · simp [forgery, TfsOp.Named, letter]
    · rw [(accounted.marked 0 (by decide)).2 (.inl (by decide))] at bit
      cases bit
  · have ran : ((tfsSystem NewVolume).exec fiveBlocks [.create letter ⟨-1, by decide⟩]).map
        (fun s => (s.blocks 2 120, s.blocks 3 0)) = some (3, 0xffffffff#32) := by decide +kernel
    obtain ⟨s, ran, words⟩ := Option.map_eq_some_iff.1 ran
    obtain ⟨entry, size⟩ := Prod.mk.inj words
    have used : Used (s.blocks 2) 24 := ⟨by decide, by rw [entryInode, entry]; decide⟩
    have place : inodeOf s.blocks 24 = 3 := by
      rw [inodeOf, entryInode, entry]
      rfl
    refine ⟨s, reached _ ?_ s ran, fun accounted => ?_⟩
    · simp [TfsOp.Named, letter]
    · have fits := accounted.fits 24 used
      rw [place, unsignedSize, size] at fits
      exact absurd fits (by decide)

end Buenos.Fs
